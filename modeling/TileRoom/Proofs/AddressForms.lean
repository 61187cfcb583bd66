import TileRoom.Proofs.IpGrammar
import TileRoom.Proofs.Text.Trimming

/-! The texts that are read as an address with a port. Five forms are meant. Two more are read because
the text of the address may be of either kind, in brackets and before a last colon: a dotted
address in brackets, and groups with a port behind them where the port is not a group itself. -/

namespace TileRoom

namespace Ip

def InText (c : Char) : Prop :=
  (Numeral.digitValue? 16 c).isSome = true ∨ c = ':' ∨ c = '.'

instance (c : Char) : Decidable (InText c) :=
  inferInstanceAs (Decidable (_ ∨ _))

theorem dotted_inText (a b c d : UInt8) : ∀ char ∈ dotted a b c d, InText char := by
  have octet (octet : UInt8) : ∀ char ∈ Numeral.decimal octet.toNat, InText char :=
    Numeral.forall_mem_decimal (by decide) octet.toNat
  rw [dotted_eq]
  simp only [List.forall_mem_append, List.forall_mem_cons]
  exact ⟨octet a, by decide, octet b, by decide, octet c, by decide, octet d⟩

theorem Run.inText {ends : Bool} {text : List Char} {groups : List UInt16} (run : Run ends text groups) :
    ∀ c ∈ text, InText c := by
  obtain ⟨texts, rfl, parts⟩ := run
  have plain {texts : List (List Char)} {groups : List UInt16} (each : List.Forall₂ IsGroup texts groups) :
      ∀ part ∈ texts, ∀ c ∈ part, InText c := by
    induction each with
    | nil => simp
    | cons first _ ih => exact List.forall_mem_cons.2 ⟨fun c member => .inl (first.2.isDigit c member), ih⟩
  have inside : ∀ part ∈ texts, ∀ c ∈ part, InText c := by
    cases parts with
    | plain each => exact plain each
    | dotted a b c d each => exact List.forall_mem_append.2 ⟨plain each, by simpa using dotted_inText a b c d⟩
  intro c member
  rcases Cut.mem_intercalate member with colon | ⟨part, known, there⟩
  · exact .inr (.inl colon)
  · exact inside part known c there

theorem Spells.inText {text : List Char} {ip : Ip} (spells : Spells text ip) : ∀ c ∈ text, InText c := by
  cases spells with
  | v4 a b c d => exact dotted_inText a b c d
  | whole run => exact run.inText
  | gap first second =>
    have colons : ∀ c ∈ "::".toList, InText c := by decide
    simp only [List.forall_mem_append]
    exact ⟨⟨first.inText, colons⟩, second.inText⟩

end Ip

namespace Address

open Ip (dotted)

theorem port?_eq_some_iff (text : List Char) (port : UInt16) :
    port? text = some port ↔ Numeral.Spells 10 text port.toNat := by
  constructor
  · intro read
    obtain ⟨value, found, rfl⟩ := Option.map_eq_some_iff.1 read
    obtain ⟨number, small⟩ := Option.filter_eq_some_iff.1 found
    rw [UInt16.toNat_ofNat_of_lt' (of_decide_eq_true small)]
    exact Numeral.value?_eq_some_iff.1 number
  · intro spells
    have small := port.toNat_lt
    rw [port?, Numeral.value?_eq_some_iff.2 spells, Option.filter_some, if_pos (decide_eq_true small),
      Option.map_some, UInt16.ofNat_toNat]

/-- The forms of a text that stands for an address: the address by itself, a dotted one with its port
behind a colon, and one in groups in brackets, with or without a port behind them. -/
inductive Form (defaultPort : UInt16) : List Char → Address → Prop where
  | bare {host : List Char} {ip : Ip} : Ip.Spells host ip → Form defaultPort host ⟨ip, defaultPort⟩
  | dottedPort (a b c d : UInt8) {digits : List Char} {port : UInt16} : Numeral.Spells 10 digits port.toNat →
      Form defaultPort (dotted a b c d ++ ':' :: digits) ⟨.v4 a b c d, port⟩
  | bracketed {host : List Char} {groups : Vector UInt16 8} : Ip.Spells host (.v6 groups) →
      Form defaultPort ('[' :: (host ++ [']'])) ⟨.v6 groups, defaultPort⟩
  | bracketedPort {host digits : List Char} {groups : Vector UInt16 8} {port : UInt16} :
      Ip.Spells host (.v6 groups) → Numeral.Spells 10 digits port.toNat →
      Form defaultPort ('[' :: (host ++ ']' :: ':' :: digits)) ⟨.v6 groups, port⟩

/-- The texts of no form that are read all the same. -/
inductive Stray (defaultPort : UInt16) : List Char → Address → Prop where
  | bracketed (a b c d : UInt8) : Stray defaultPort ('[' :: (dotted a b c d ++ [']'])) ⟨.v4 a b c d, defaultPort⟩
  | bracketedPort (a b c d : UInt8) {digits : List Char} {port : UInt16} : Numeral.Spells 10 digits port.toNat →
      Stray defaultPort ('[' :: (dotted a b c d ++ ']' :: ':' :: digits)) ⟨.v4 a b c d, port⟩
  | groupsPort {host digits : List Char} {groups : Vector UInt16 8} {port : UInt16} :
      Ip.Spells host (.v6 groups) → Numeral.Spells 10 digits port.toNat →
      (∀ ip, ¬Ip.Spells (host ++ ':' :: digits) ip) → Stray defaultPort (host ++ ':' :: digits) ⟨.v6 groups, port⟩

variable {defaultPort port : UInt16} {text host digits : List Char} {ip : Ip} {address : Address}

theorem digits_apart (spells : Numeral.Spells 10 digits port.toNat) : ':' ∉ digits :=
  Numeral.not_mem_of_digits (Ip.digitValue?_colon 10) spells.isDigit

theorem withPort_eq_ok_iff (cause : AddressError) :
    (match port? digits with
      | some port => Except.ok (⟨ip, port⟩ : Address)
      | none => .error cause) = .ok address ↔
      ∃ port : UInt16, Numeral.Spells 10 digits port.toNat ∧ address = ⟨ip, port⟩ := by
  cases read : port? digits with
  | none =>
    constructor
    · nofun
    · rintro ⟨port, spells, -⟩
      rw [(port?_eq_some_iff digits port).2 spells] at read
      cases read
  | some port =>
    constructor
    · intro same
      exact ⟨port, (port?_eq_some_iff digits port).1 read, (Except.ok.inj same).symm⟩
    · rintro ⟨other, spells, rfl⟩
      rw [(port?_eq_some_iff digits other).2 spells] at read
      rw [Option.some.inj read]

theorem parseTrimmed_bracketed (spells : Ip.Spells host ip) (after : List Char) :
    parseTrimmed defaultPort ('[' :: (host ++ ']' :: after)) = .ok address ↔
      (after = [] ∧ address = ⟨ip, defaultPort⟩) ∨
      ∃ digits, after = ':' :: digits ∧ ∃ port : UInt16, Numeral.Spells 10 digits port.toNat ∧ address = ⟨ip, port⟩ := by
  have plain : ']' ∉ host := fun member => absurd (spells.inText _ member) (by decide)
  simp only [parseTrimmed, Cut.first?_append host after plain, (Ip.parse?_eq_some_iff host ip).2 spells]
  split
  · contradiction
  · rename_i same
    obtain rfl := Option.some.inj same
    simp [eq_comm]
  · rename_i digits same
    obtain rfl := Option.some.inj same
    simp only [reduceCtorEq, false_and, false_or, List.cons.injEq, true_and, exists_eq_left']
    exact withPort_eq_ok_iff _
  · rename_i alone withPort
    constructor
    · nofun
    · rintro (⟨rfl, -⟩ | ⟨digits, rfl, -⟩)
      · exact (alone rfl).elim
      · exact (withPort digits rfl).elim

theorem unreadable {host : List Char} (missing : Ip.parse? host = none) (ip : Ip) : ¬Ip.Spells host ip := by
  intro spells
  rw [(Ip.parse?_eq_some_iff host ip).2 spells] at missing
  cases missing

theorem parseTrimmed_plain (plain : text.head? ≠ some '[') :
    parseTrimmed defaultPort text = .ok address ↔
      (∃ ip, Ip.Spells text ip ∧ address = ⟨ip, defaultPort⟩) ∨
      ((∀ ip, ¬Ip.Spells text ip) ∧ ∃ host digits ip, text = host ++ ':' :: digits ∧
        Ip.Spells host ip ∧ ∃ port : UInt16, Numeral.Spells 10 digits port.toNat ∧ address = ⟨ip, port⟩) := by
  unfold parseTrimmed
  split
  · exact absurd rfl plain
  cases whole : Ip.parse? text with
  | some ip =>
    have spells := (Ip.parse?_eq_some_iff text ip).1 whole
    constructor
    · intro same
      exact .inl ⟨ip, spells, (Except.ok.inj same).symm⟩
    · rintro (⟨other, again, rfl⟩ | ⟨unspelled, -⟩)
      · rw [(Ip.parse?_eq_some_iff text other).2 again] at whole
        rw [Option.some.inj whole]
      · exact absurd spells (unspelled ip)
  | none =>
    simp only [unreadable whole, false_and, exists_false, false_or, not_false_eq_true, implies_true, true_and]
    cases cut : Cut.last? ':' text with
    | none =>
      constructor
      · nofun
      · rintro ⟨host, digits, ip, rfl, -⟩
        exact absurd (Cut.last?_eq_none_iff.1 cut) (by simp)
    | some parts =>
      obtain ⟨host, digits⟩ := parts
      obtain ⟨rfl, last⟩ := Cut.last?_eq_some_iff.1 cut
      dsimp only
      cases read : Ip.parse? host with
      | none =>
        constructor
        · nofun
        · rintro ⟨front, behind, ip, form, spells, port, number, -⟩
          obtain ⟨rfl, rfl⟩ := Cut.last_unique form last (digits_apart number)
          exact absurd spells (unreadable read ip)
      | some ip =>
        refine (withPort_eq_ok_iff _).trans ⟨?_, ?_⟩
        · rintro ⟨port, number, rfl⟩
          exact ⟨host, digits, ip, rfl, (Ip.parse?_eq_some_iff host ip).1 read, port, number, rfl⟩
        · rintro ⟨front, behind, other, form, spells, port, number, rfl⟩
          obtain ⟨rfl, rfl⟩ := Cut.last_unique form last (digits_apart number)
          rw [(Ip.parse?_eq_some_iff host other).2 spells] at read
          obtain rfl := Option.some.inj read
          exact ⟨port, number, rfl⟩

theorem head_plain (spells : Ip.Spells host ip) : host.head? ≠ some '[' := by
  intro bracket
  exact absurd (spells.inText _ (List.mem_of_mem_head? bracket)) (by decide)

theorem head_plain_append (spells : Ip.Spells host ip) (rest : List Char) :
    (host ++ ':' :: rest).head? ≠ some '[' := by
  cases host with
  | nil => simp
  | cons first others =>
    change (first :: others).head? ≠ some '['
    exact head_plain spells

theorem dottedPort_unspelled (a b c d : UInt8) (number : Numeral.Spells 10 digits port.toNat) (ip : Ip) :
    ¬Ip.Spells (dotted a b c d ++ ':' :: digits) ip := by
  intro whole
  have one : (dotted a b c d ++ ':' :: digits).count ':' = 1 := by
    rw [List.count_append, List.count_cons_self, List.count_eq_zero.2 (Ip.dotted_apart a b c d).2.1,
      List.count_eq_zero.2 (digits_apart number)]
  cases ip with
  | v4 _ _ _ _ =>
    generalize form : dotted a b c d ++ ':' :: digits = text at whole one
    cases whole
    rw [List.count_eq_zero.2 (Ip.dotted_apart _ _ _ _).2.1] at one
    cases one
  | v6 groups =>
    have two := whole.colons
    omega

theorem parseTrimmed_of_form (form : Form defaultPort text address) : parseTrimmed defaultPort text = .ok address := by
  cases form with
  | bare spells => exact (parseTrimmed_plain (head_plain spells)).2 (.inl ⟨_, spells, rfl⟩)
  | dottedPort a b c d number =>
    have spells := Ip.Spells.v4 a b c d
    exact (parseTrimmed_plain (head_plain_append spells _)).2
      (.inr ⟨dottedPort_unspelled a b c d number, _, _, _, rfl, spells, _, number, rfl⟩)
  | bracketed spells => exact (parseTrimmed_bracketed spells []).2 (.inl ⟨rfl, rfl⟩)
  | bracketedPort spells number => exact (parseTrimmed_bracketed spells _).2 (.inr ⟨_, rfl, _, number, rfl⟩)

theorem parseTrimmed_of_stray (stray : Stray defaultPort text address) :
    parseTrimmed defaultPort text = .ok address := by
  cases stray with
  | bracketed a b c d => exact (parseTrimmed_bracketed (.v4 a b c d) []).2 (.inl ⟨rfl, rfl⟩)
  | bracketedPort a b c d number => exact (parseTrimmed_bracketed (.v4 a b c d) _).2 (.inr ⟨_, rfl, _, number, rfl⟩)
  | groupsPort spells number unspelled =>
    exact (parseTrimmed_plain (head_plain_append spells _)).2 (.inr ⟨unspelled, _, _, _, rfl, spells, _, number, rfl⟩)

theorem bracket_closed (read : parseTrimmed defaultPort ('[' :: text) = .ok address) :
    ∃ host after ip, text = host ++ ']' :: after ∧ Ip.Spells host ip := by
  unfold parseTrimmed at read
  cases cut : Cut.first? ']' text with
  | none =>
    simp only [cut] at read
    cases read
  | some parts =>
    obtain ⟨host, after⟩ := parts
    simp only [cut] at read
    cases spelled : Ip.parse? host with
    | none =>
      simp only [spelled] at read
      cases read
    | some ip =>
      exact ⟨host, after, ip, (Cut.first?_eq_some_iff.1 cut).1, (Ip.parse?_eq_some_iff host ip).1 spelled⟩

theorem form_or_stray (read : parseTrimmed defaultPort text = .ok address) :
    Form defaultPort text address ∨ Stray defaultPort text address := by
  by_cases bracket : text.head? = some '['
  · obtain ⟨rest, rfl⟩ := List.head?_eq_some_iff.1 bracket
    obtain ⟨host, after, ip, rfl, spells⟩ := bracket_closed read
    rcases (parseTrimmed_bracketed spells after).1 read with ⟨rfl, rfl⟩ | ⟨digits, rfl, port, number, rfl⟩
    · cases ip with
      | v4 a b c d =>
        cases spells
        exact .inr (.bracketed a b c d)
      | v6 groups => exact .inl (.bracketed spells)
    · cases ip with
      | v4 a b c d =>
        cases spells
        exact .inr (.bracketedPort a b c d number)
      | v6 groups => exact .inl (.bracketedPort spells number)
  · rcases (parseTrimmed_plain bracket).1 read with
      ⟨ip, spells, rfl⟩ | ⟨unspelled, host, digits, ip, rfl, spells, port, number, rfl⟩
    · exact .inl (.bare spells)
    · cases ip with
      | v4 a b c d =>
        cases spells
        exact .inl (.dottedPort a b c d number)
      | v6 groups => exact .inr (.groupsPort spells number unspelled)

theorem parseTrimmed_eq_ok_iff :
    parseTrimmed defaultPort text = .ok address ↔ Form defaultPort text address ∨ Stray defaultPort text address :=
  ⟨form_or_stray, fun known => known.elim parseTrimmed_of_form parseTrimmed_of_stray⟩

theorem Form.bare_of_colons (form : Form defaultPort text address) (plain : text.head? ≠ some '[')
    (several : 2 ≤ text.count ':') : Ip.Spells text address.ip ∧ address.port = defaultPort := by
  cases form with
  | bare spells => exact ⟨spells, rfl⟩
  | dottedPort a b c d number =>
    rw [List.count_append, List.count_cons_self, List.count_eq_zero.2 (Ip.dotted_apart a b c d).2.1,
      List.count_eq_zero.2 (digits_apart number)] at several
    omega
  | bracketed => exact absurd rfl plain
  | bracketedPort => exact absurd rfl plain

theorem Form.groups_of_bracket (form : Form defaultPort text address) (bracket : text.head? = some '[') :
    ∃ groups, address.ip = .v6 groups := by
  cases form with
  | bare spells => exact absurd bracket (head_plain spells)
  | dottedPort a b c d => exact absurd bracket (head_plain_append (.v4 a b c d) _)
  | bracketed => exact ⟨_, rfl⟩
  | bracketedPort => exact ⟨_, rfl⟩

/-- Without the blanks around it, a text is read as an address exactly when it has one of the forms or
is one of the others. A text that is none of the others is read exactly in its form, and several
colons without brackets leave it with the default port. -/
theorem forms_read (defaultPort : UInt16) (input : String) :
    let text := Blank.trim input.toList
    (∀ address, parse defaultPort input = .ok address ↔
      Form defaultPort text address ∨ Stray defaultPort text address) ∧
    ((∀ address, ¬Stray defaultPort text address) →
      (∀ address, parse defaultPort input = .ok address ↔ Form defaultPort text address) ∧
      (text.head? ≠ some '[' → 2 ≤ text.count ':' →
        ∀ address, parse defaultPort input = .ok address → address.port = defaultPort)) := by
  intro text
  have exact (address : Address) : parse defaultPort input = .ok address ↔
      Form defaultPort text address ∨ Stray defaultPort text address := parseTrimmed_eq_ok_iff
  refine ⟨exact, fun clear => ?_⟩
  have formed (address : Address) : parse defaultPort input = .ok address ↔ Form defaultPort text address := by
    rw [exact address, or_iff_left (clear address)]
  exact ⟨formed, fun plain several address read => (((formed address).1 read).bare_of_colons plain several).2⟩

theorem not_stray_of_spells (spells : Ip.Spells text ip) : ¬Stray defaultPort text address := by
  intro stray
  cases stray with
  | bracketed => exact head_plain spells rfl
  | bracketedPort => exact head_plain spells rfl
  | groupsPort _ _ unspelled => exact unspelled ip spells

/-- The number behind the last colon is a group here. -/
theorem forms_read_groups :
    let input := " 1:2::80\n"
    let text := Blank.trim input.toList
    (∀ address, ¬Stray 5144 text address) ∧ (text.head? ≠ some '[' ∧ 2 ≤ text.count ':') ∧
      parse 5144 input = .ok ⟨.v6 #v[1, 2, 0, 0, 0, 0, 0, 0x80], 5144⟩ := by
  intro input text
  have spells : Ip.Spells text (.v6 #v[1, 2, 0, 0, 0, 0, 0, 0x80]) :=
    (Ip.parse?_eq_some_iff _ _).1 (by decide +kernel)
  have clear (address : Address) : ¬Stray 5144 text address := not_stray_of_spells spells
  have shape : text.head? ≠ some '[' ∧ 2 ≤ text.count ':' := by decide
  exact ⟨clear, shape, ((forms_read 5144 input).2 clear).1 _ |>.2 (.bare spells)⟩

/-- A port that is too long for a group is taken from behind groups without brackets, and a dotted
address is read in brackets. Neither text has one of the forms. -/
theorem read_beyond_forms :
    let groups := "::1:65535"
    let brackets := "[1.2.3.4]:80"
    (parse 5144 groups = .ok ⟨.v6 #v[0, 0, 0, 0, 0, 0, 0, 1], 65535⟩ ∧
      groups.toList.head? ≠ some '[' ∧ 2 ≤ groups.toList.count ':' ∧
      ∀ address, ¬Form 5144 (Blank.trim groups.toList) address) ∧
    parse 5144 brackets = .ok ⟨.v4 1 2 3 4, 80⟩ ∧ ∀ address, ¬Form 5144 (Blank.trim brackets.toList) address := by
  intro groups brackets
  have number (digits : List Char) (port : UInt16) (read : port? digits = some port) :
      Numeral.Spells 10 digits port.toNat := (port?_eq_some_iff digits port).1 read
  have spells : Ip.Spells "::1".toList (.v6 #v[0, 0, 0, 0, 0, 0, 0, 1]) :=
    (Ip.parse?_eq_some_iff _ _).1 (by decide +kernel)
  have cut : Blank.trim groups.toList = "::1".toList ++ ':' :: "65535".toList := by decide
  have closed : Blank.trim brackets.toList = '[' :: (dotted 1 2 3 4 ++ ']' :: ':' :: "80".toList) := by decide +kernel
  have unspelled : ∀ ip, ¬Ip.Spells (Blank.trim groups.toList) ip := unreadable (by decide +kernel)
  have plain : groups.toList.head? ≠ some '[' ∧ 2 ≤ groups.toList.count ':' := by decide
  have first : Stray 5144 (Blank.trim groups.toList) ⟨.v6 #v[0, 0, 0, 0, 0, 0, 0, 1], 65535⟩ := by
    rw [cut] at unspelled ⊢
    exact .groupsPort spells (number _ 65535 (by decide)) unspelled
  have second : Stray 5144 (Blank.trim brackets.toList) ⟨.v4 1 2 3 4, 80⟩ := by
    rw [closed]
    exact .bracketedPort 1 2 3 4 (number _ 80 (by decide))
  refine ⟨⟨parseTrimmed_of_stray first, plain.1, plain.2, ?_⟩, parseTrimmed_of_stray second, ?_⟩
  · intro address form
    have shape : (Blank.trim groups.toList).head? ≠ some '[' ∧ 2 ≤ (Blank.trim groups.toList).count ':' := by decide
    exact unspelled _ (form.bare_of_colons shape.1 shape.2).1
  · intro address form
    obtain ⟨groups, ip⟩ := form.groups_of_bracket (by rw [closed]; rfl)
    obtain rfl := Except.ok.inj ((parseTrimmed_of_stray second).symm.trans (parseTrimmed_of_form form))
    cases ip

end Address

end TileRoom
