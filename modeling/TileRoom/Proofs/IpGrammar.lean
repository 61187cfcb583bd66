import TileRoom.Address
import TileRoom.Proofs.Text.Cuts
import TileRoom.Proofs.Text.Spelling

/-! The texts of network addresses. A dotted address is four octets. An address in groups has eight,
or fewer around one gap; the last two may be dotted. Main statement: a text is read as an address
when it spells that address. -/

namespace TileRoom.Ip

open Numeral

def IsGroup (text : List Char) (group : UInt16) : Prop :=
  text.length ≤ 4 ∧ Numeral.Spells 16 text group.toNat

/-- The parts of a run of groups. At the end of an address the last two groups may be dotted. -/
inductive Parts : Bool → List (List Char) → List UInt16 → Prop where
  | plain {ends : Bool} {texts : List (List Char)} {groups : List UInt16} :
      List.Forall₂ IsGroup texts groups → Parts ends texts groups
  | dotted {texts : List (List Char)} {groups : List UInt16} (a b c d : UInt8) :
      List.Forall₂ IsGroup texts groups →
      Parts true (texts ++ [dotted a b c d]) (groups ++ [pairOctets a b, pairOctets c d])

def Run (ends : Bool) (text : List Char) (groups : List UInt16) : Prop :=
  ∃ texts, text = List.intercalate [':'] texts ∧ Parts ends texts groups

/-- The texts of an address. A gap stands for at least one group of zero. -/
inductive Spells : List Char → Ip → Prop where
  | v4 (a b c d : UInt8) : Spells (dotted a b c d) (.v4 a b c d)
  | whole {text : List Char} {groups : Vector UInt16 8} : Run true text groups.toList → Spells text (.v6 groups)
  | gap {before after : List Char} {head tail : List UInt16} {groups : Vector UInt16 8} :
      Run false before head → Run true after tail → head.length + tail.length < 8 →
      groups.toList = head ++ List.replicate (8 - head.length - tail.length) 0 ++ tail →
      Spells (before ++ "::".toList ++ after) (.v6 groups)

theorem digitValue?_colon (base : Nat) : digitValue? base ':' = none := by
  simp [digitValue?]

theorem digitValue?_dot (base : Nat) : digitValue? base '.' = none := by
  simp [digitValue?]

theorem IsGroup.apart {text : List Char} {group : UInt16} (read : IsGroup text group) :
    text ≠ [] ∧ ':' ∉ text ∧ '.' ∉ text :=
  ⟨read.2.1, not_mem_of_digits (digitValue?_colon 16) read.2.isDigit,
    not_mem_of_digits (digitValue?_dot 16) read.2.isDigit⟩

theorem octet_apart (octet : UInt8) :
    decimal octet.toNat ≠ [] ∧ ':' ∉ decimal octet.toNat ∧ '.' ∉ decimal octet.toNat := by
  have spells := spells_decimal octet.toNat
  exact ⟨spells.1, not_mem_of_digits (digitValue?_colon 10) spells.isDigit,
    not_mem_of_digits (digitValue?_dot 10) spells.isDigit⟩

theorem dotted_eq (a b c d : UInt8) :
    dotted a b c d = decimal a.toNat ++ '.' :: (decimal b.toNat ++ '.' :: (decimal c.toNat ++ '.' :: decimal d.toNat)) := by
  simp [dotted, List.intercalate_cons_cons]

theorem dotted_apart (a b c d : UInt8) : dotted a b c d ≠ [] ∧ ':' ∉ dotted a b c d ∧ '.' ∈ dotted a b c d := by
  have colon (octet : UInt8) := (octet_apart octet).2.1
  rw [dotted_eq]
  simp [colon]

theorem octet?_eq_some_iff (text : List Char) (octet : UInt8) :
    octet? text = some octet ↔ text = decimal octet.toNat := by
  constructor
  · intro read
    rw [octet?] at read
    split at read
    · rename_i shape
      obtain ⟨value, found, rfl⟩ := Option.map_eq_some_iff.1 read
      obtain ⟨number, small⟩ := Option.filter_eq_some_iff.1 found
      rw [UInt8.toNat_ofNat_of_lt' (of_decide_eq_true small)]
      exact (value?_eq_some_iff.1 number).eq_decimal shape.2
    · cases read
  · rintro rfl
    have small := octet.toNat_lt
    rw [octet?, if_pos ⟨(decimal_length_le _ 3 (by omega)).2 (by omega), decimal_leading _⟩,
      value?_eq_some_iff.2 (spells_decimal octet.toNat), Option.filter_some, if_pos (decide_eq_true small),
      Option.map_some, UInt8.ofNat_toNat]

theorem group?_eq_some_iff (text : List Char) (group : UInt16) : group? text = some group ↔ IsGroup text group := by
  constructor
  · intro read
    rw [group?] at read
    split at read
    · rename_i short
      obtain ⟨value, found, rfl⟩ := Option.map_eq_some_iff.1 read
      have spells := value?_eq_some_iff.1 found
      have small : value < 2 ^ 16 := Nat.lt_of_lt_of_le (spells.lt (by omega))
        (Nat.pow_le_pow_right (by omega) short)
      refine ⟨short, ?_⟩
      rwa [UInt16.toNat_ofNat_of_lt' small]
    · cases read
  · rintro ⟨short, spells⟩
    rw [group?, if_pos short, value?_eq_some_iff.2 spells, Option.map_some, UInt16.ofNat_toNat]

theorem parseV4?_eq_some_iff (text : List Char) (ip : Ip) :
    parseV4? text = some ip ↔ ∃ a b c d, text = dotted a b c d ∧ ip = .v4 a b c d := by
  constructor
  · intro read
    obtain ⟨-, part, parts, cut, whole⟩ := Cut.all_spec '.' text
    rw [parseV4?] at read
    split at read
    · rename_i first second third fourth form
      simp only [Option.bind_eq_bind, Option.bind_eq_some_iff, octet?_eq_some_iff, Option.pure_def,
        Option.some.injEq] at read
      obtain ⟨a, rfl, b, rfl, c, rfl, d, rfl, rfl⟩ := read
      refine ⟨a, b, c, d, ?_, rfl⟩
      rw [← whole, ← cut, form]
      rfl
    · cases read
  · rintro ⟨a, b, c, d, rfl, rfl⟩
    have dot (octet : UInt8) := (octet_apart octet).2.2
    have cut : Cut.all '.' (dotted a b c d) =
        [decimal a.toNat, decimal b.toNat, decimal c.toNat, decimal d.toNat] :=
      Cut.all_intercalate '.' _ _ (by simp [dot])
    have read (octet : UInt8) : octet? (decimal octet.toNat) = some octet := (octet?_eq_some_iff _ _).2 rfl
    simp only [parseV4?, cut, read]
    rfl

theorem parseV4?_of_no_dot {text : List Char} (plain : '.' ∉ text) : parseV4? text = none := by
  cases read : parseV4? text with
  | none => rfl
  | some ip =>
    obtain ⟨a, b, c, d, rfl, -⟩ := (parseV4?_eq_some_iff text ip).1 read
    exact absurd (dotted_apart a b c d).2.2 plain

theorem Parts.cons {ends : Bool} {text : List Char} {group : UInt16} {texts : List (List Char)}
    {groups : List UInt16} (first : IsGroup text group) (rest : Parts ends texts groups) :
    Parts ends (text :: texts) (group :: groups) := by
  cases rest with
  | plain each => exact .plain (.cons first each)
  | dotted a b c d each => exact .dotted a b c d (.cons first each)

theorem forall_apart {texts : List (List Char)} {groups : List UInt16} (each : List.Forall₂ IsGroup texts groups) :
    ∀ part ∈ texts, part ≠ [] ∧ ':' ∉ part := by
  induction each with
  | nil => simp
  | cons first _ ih => exact List.forall_mem_cons.2 ⟨⟨first.apart.1, first.apart.2.1⟩, ih⟩

theorem Parts.apart {ends : Bool} {texts : List (List Char)} {groups : List UInt16} (parts : Parts ends texts groups) :
    ∀ part ∈ texts, part ≠ [] ∧ ':' ∉ part := by
  cases parts with
  | plain each => exact forall_apart each
  | dotted a b c d each =>
    have last := dotted_apart a b c d
    exact List.forall_mem_append.2 ⟨forall_apart each, by simpa using ⟨last.1, last.2.1⟩⟩

theorem groups?_single (ends : Bool) (part : List Char) (groups : List UInt16) :
    groups? ends [part] = some groups ↔ Parts ends [part] groups := by
  constructor
  · intro read
    unfold groups? at read
    split at read
    · rename_i found
      obtain ⟨a, b, c, d, rfl, same⟩ := (parseV4?_eq_some_iff part _).1 found
      obtain ⟨rfl, rfl, rfl, rfl⟩ := Ip.v4.inj same
      obtain rfl := Option.some.inj read
      exact List.nil_append [_] ▸ .dotted _ _ _ _ .nil
    · obtain ⟨group, found, rfl⟩ := Option.map_eq_some_iff.1 read
      exact .plain (.cons ((group?_eq_some_iff part group).1 found) .nil)
  · intro parts
    generalize form : [part] = texts at parts
    cases parts with
    | plain each =>
      subst form
      obtain ⟨group, rest, first, others, rfl⟩ := List.forall₂_cons_left_iff.1 each
      obtain rfl := List.forall₂_nil_left_iff.1 others
      have number := parseV4?_of_no_dot first.apart.2.2
      unfold groups?
      split
      · rename_i found
        rw [number] at found
        cases found
      · rw [(group?_eq_some_iff part group).2 first]
        rfl
    | @dotted texts groups a b c d each =>
      obtain ⟨rfl, same⟩ := List.append_eq_singleton_iff.1 form.symm |>.resolve_right (by simp)
      obtain rfl := List.forall₂_nil_left_iff.1 each
      obtain rfl := List.singleton_inj.1 same
      simp only [groups?, (parseV4?_eq_some_iff _ _).2 ⟨a, b, c, d, rfl, rfl⟩, List.nil_append]

theorem groups?_eq_some_iff (ends : Bool) (first : List Char) (parts : List (List Char)) (groups : List UInt16) :
    groups? ends (first :: parts) = some groups ↔ Parts ends (first :: parts) groups := by
  induction parts generalizing first groups with
  | nil => exact groups?_single ends first groups
  | cons second rest ih =>
    have step : groups? ends (first :: second :: rest) =
        (group? first).bind fun group => (groups? ends (second :: rest)).bind fun others => some (group :: others) := rfl
    simp only [step, Option.bind_eq_some_iff, group?_eq_some_iff, ih, Option.some.injEq]
    constructor
    · rintro ⟨group, here, others, later, rfl⟩
      exact later.cons here
    · intro read
      generalize form : first :: second :: rest = texts at read
      cases read with
      | plain each =>
        subst form
        obtain ⟨group, others, here, later, rfl⟩ := List.forall₂_cons_left_iff.1 each
        exact ⟨group, here, others, .plain later, rfl⟩
      | dotted a b c d each =>
        rename_i texts numbers
        cases texts with
        | nil => simp at form
        | cons text texts =>
          obtain ⟨rfl, same⟩ := List.cons.inj form
          obtain ⟨group, others, here, later, rfl⟩ := List.forall₂_cons_left_iff.1 each
          exact ⟨group, here, _, same ▸ .dotted a b c d later, rfl⟩

theorem side?_eq_some_iff (ends : Bool) (text : List Char) (groups : List UInt16) :
    side? ends text = some groups ↔ Run ends text groups := by
  cases text with
  | nil =>
    constructor
    · intro read
      obtain rfl := Option.some.inj read
      exact ⟨[], rfl, .plain .nil⟩
    · rintro ⟨texts, empty, parts⟩
      cases texts with
      | nil =>
        generalize form : ([] : List (List Char)) = texts at parts
        cases parts with
        | plain each =>
          subst form
          obtain rfl := List.forall₂_nil_left_iff.1 each
          rfl
        | dotted => simp at form
      | cons part rest =>
        have nonempty := (parts.apart part List.mem_cons_self).1
        cases rest with
        | nil => exact absurd (by simpa using empty.symm) nonempty
        | cons next others => simp [List.intercalate_cons_cons, nonempty] at empty
  | cons c rest =>
    have nonempty : (c :: rest).isEmpty = false := rfl
    rw [side?, nonempty]
    simp only [Bool.false_eq_true, if_false]
    constructor
    · intro read
      obtain ⟨-, part, parts, cut, whole⟩ := Cut.all_spec ':' (c :: rest)
      rw [cut, groups?_eq_some_iff] at read
      exact ⟨_, whole.symm, read⟩
    · rintro ⟨texts, whole, parts⟩
      cases texts with
      | nil => cases whole
      | cons part others =>
        rw [whole, Cut.all_intercalate ':' part others fun text member => (parts.apart text member).2,
          groups?_eq_some_iff]
        exact parts

theorem Run.around? {ends : Bool} {text : List Char} {groups : List UInt16} (run : Run ends text groups)
    (rest : List Char) :
    Cut.around? [':', ':'] (text ++ rest) =
      (Cut.around? [':', ':'] rest).map fun found => (text ++ found.1, found.2) := by
  obtain ⟨texts, rfl, parts⟩ := run
  exact Cut.around?_pair_intercalate parts.apart rest

theorem Run.colons {ends : Bool} {text : List Char} {groups : List UInt16} (run : Run ends text groups) :
    groups.length ≤ text.count ':' + 2 := by
  obtain ⟨texts, rfl, parts⟩ := run
  have between := Cut.length_le_count_intercalate ':' texts
  cases parts with
  | plain each =>
    rw [each.length_eq] at between
    omega
  | dotted a b c d each =>
    have same := each.length_eq
    simp only [List.length_append, List.length_cons, List.length_nil] at between ⊢
    omega

theorem v6_of_toList {groups : Vector UInt16 8} {list : List UInt16} (form : groups.toList = list)
    (size : list.length = 8) : Ip.v6 ⟨list.toArray, size⟩ = .v6 groups := by
  subst form
  rfl

theorem Spells.colons {text : List Char} {groups : Vector UInt16 8} (spells : Spells text (.v6 groups)) :
    2 ≤ text.count ':' := by
  cases spells with
  | whole run =>
    have least := run.colons
    rw [Vector.length_toList] at least
    omega
  | gap =>
    have two : "::".toList.count ':' = 2 := by decide
    simp only [List.count_append, two]
    omega

theorem parseV6?_of_spells {text : List Char} {groups : Vector UInt16 8} (spells : Spells text (.v6 groups)) :
    parseV6? text = some (.v6 groups) := by
  have eight : groups.toList.length = 8 := groups.length_toList
  cases spells with
  | whole run =>
    have missing := run.around? []
    rw [List.append_nil] at missing
    have none : Cut.around? [':', ':'] text = none := missing
    rw [parseV6?, none]
    simp only [(side?_eq_some_iff true text _).2 run, Option.bind_eq_bind, Option.bind_some, dif_pos eight]
    exact congrArg some (v6_of_toList rfl eight)
  | @gap before after head tail _ first second short form =>
    have there := first.around? ("::".toList ++ after)
    rw [← List.append_assoc] at there
    have found : Cut.around? [':', ':'] (before ++ "::".toList ++ after) = some (before, after) := by
      rw [there]
      simp [Cut.around?]
    have size : (head ++ List.replicate (8 - head.length - tail.length) 0 ++ tail).length = 8 := form ▸ eight
    rw [parseV6?, found]
    simp only [(side?_eq_some_iff false before _).2 first, (side?_eq_some_iff true after _).2 second,
      Option.bind_eq_bind, Option.bind_some]
    rw [dif_pos ⟨size, short⟩]
    exact congrArg some (v6_of_toList form size)

theorem spells_of_parseV6? {text : List Char} {ip : Ip} (read : parseV6? text = some ip) : Spells text ip := by
  rw [parseV6?] at read
  split at read
  · obtain ⟨groups, side, made⟩ := Option.bind_eq_some_iff.1 read
    rw [side?_eq_some_iff] at side
    split at made
    · obtain rfl := Option.some.inj made
      exact .whole side
    · cases made
  · rename_i before after found
    obtain ⟨head, first, more⟩ := Option.bind_eq_some_iff.1 read
    obtain ⟨tail, second, made⟩ := Option.bind_eq_some_iff.1 more
    rw [side?_eq_some_iff] at first second
    simp only at made
    split at made
    · rename_i size
      obtain rfl := Option.some.inj made
      rw [Cut.around?_eq_some found]
      exact .gap first second size.2 rfl
    · cases made

/-- A text is read as an address when it spells that address. -/
theorem parse?_eq_some_iff (text : List Char) (ip : Ip) : parse? text = some ip ↔ Spells text ip := by
  constructor
  · intro read
    rw [parse?] at read
    split at read
    · rename_i found
      obtain ⟨a, b, c, d, rfl, rfl⟩ := (parseV4?_eq_some_iff text _).1 found
      obtain rfl := Option.some.inj read
      exact .v4 a b c d
    · exact spells_of_parseV6? read
  · intro spells
    rw [parse?]
    cases ip with
    | v4 a b c d =>
      cases spells
      rw [(parseV4?_eq_some_iff _ _).2 ⟨a, b, c, d, rfl, rfl⟩]
    | v6 groups =>
      have number : parseV4? text = none := by
        cases found : parseV4? text with
        | none => rfl
        | some ip =>
          obtain ⟨a, b, c, d, rfl, -⟩ := (parseV4?_eq_some_iff text ip).1 found
          have least := spells.colons
          rw [List.count_eq_zero.2 (dotted_apart a b c d).2.1] at least
          omega
      rw [number]
      exact parseV6?_of_spells spells

end TileRoom.Ip
