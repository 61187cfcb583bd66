import TileRoom.Frame
import TileRoom.Proofs.Text.Blanks
import TileRoom.Proofs.Text.Numerals

/-! The JSON text of a record is read as that record. A text is taken apart token by
token, so a token is described by what it does to any text that follows it. -/

namespace TileRoom.Json

/-- The tokens of a text, one step for each. -/
inductive Scans : List Char → List Token → Prop where
  | nil : Scans [] []
  | blank {c : Char} {rest : List Char} {tokens : List Token} (blank : isBlank c = true)
      (scans : Scans rest tokens) : Scans (c :: rest) tokens
  | token {c : Char} {rest after : List Char} {token : Token} {tokens : List Token}
      (visible : isBlank c = false) (found : token? c rest = some (token, after))
      (shorter : after.length ≤ rest.length) (scans : Scans after tokens) :
      Scans (c :: rest) (token :: tokens)

theorem Scans.tokensWithin {text : List Char} {tokens : List Token} (scans : Scans text tokens)
    (steps : Nat) (enough : text.length ≤ steps) : tokensWithin steps text = some tokens := by
  induction scans generalizing steps with
  | nil => cases steps <;> rfl
  | blank blank scans ih =>
    rw [List.length_cons] at enough
    obtain ⟨steps, rfl⟩ := Nat.exists_eq_add_of_le' (Nat.lt_of_lt_of_le (Nat.succ_pos _) enough)
    rw [Json.tokensWithin, if_pos blank]
    exact ih steps (by omega)
  | token visible found shorter scans ih =>
    rw [List.length_cons] at enough
    obtain ⟨steps, rfl⟩ := Nat.exists_eq_add_of_le' (Nat.lt_of_lt_of_le (Nat.succ_pos _) enough)
    rw [Json.tokensWithin, if_neg (by simp [visible]), found]
    simp only
    rw [ih steps (by omega)]
    rfl

theorem Scans.tokens? {text : List Char} {tokens : List Token} (scans : Scans text tokens) :
    tokens? text = some tokens :=
  scans.tokensWithin _ (Nat.le_refl _)

def Reads (text : List Char) (token : Token) : Prop :=
  ∀ (stop : Char) (after : List Char) (tokens : List Token), stop = ',' ∨ stop = '\x7d' →
    Scans (stop :: after) tokens → Scans (text ++ stop :: after) (token :: tokens)

theorem scans_sign {c : Char} {token : Token} {after : List Char} {tokens : List Token}
    (visible : isBlank c = false) (found : ∀ rest, token? c rest = some (token, rest))
    (scans : Scans after tokens) : Scans (c :: after) (token :: tokens) :=
  .token visible (found after) (Nat.le_refl _) scans

theorem reads_null : Reads "null".toList .null := fun _ _ _ _ scans =>
  .token (by decide) rfl (by simp) scans

theorem reads_bool (value : Bool) : Reads (Frame.boolText value) (.bool value) :=
  fun _ _ _ _ scans => by
    cases value with
    | true => exact .token (by decide) rfl (by simp) scans
    | false => exact .token (by decide) rfl (by simp) scans

def spaced (c : Char) : Char :=
  if c ≤ ' ' then ' ' else c

def Plain (c : Char) : Prop :=
  ' ' ≤ c ∧ c ≠ '"' ∧ c ≠ '\\'

instance (c : Char) : Decidable (Plain c) :=
  inferInstanceAs (Decidable (_ ∧ _))

theorem string?_plain (c : Char) (rest : List Char) (plain : Plain c) :
    string? (c :: rest) = (string? rest).map fun (text, after) => (c :: text, after) := by
  obtain ⟨visible, unquoted, unescaped⟩ := plain
  have code : ¬c.toNat < 0x20 := Nat.not_lt.2 visible
  rw [string?.eq_def]
  simp only [if_neg unquoted, if_neg code, if_pos unescaped]

theorem string?_escapeChar (c : Char) (rest : List Char) :
    string? (Frame.escapeChar c ++ rest) =
      (string? rest).map fun (text, after) => (spaced c :: text, after) := by
  unfold Frame.escapeChar spaced
  split
  · exact string?_plain ' ' rest (by decide)
  split
  · rename_i special
    rcases special with rfl | rfl
    · rw [List.cons_append, List.cons_append, List.nil_append, string?.eq_def]
      simp [escaped?]
    · rw [List.cons_append, List.cons_append, List.nil_append, string?.eq_def]
      simp [escaped?]
  · rename_i above usual
    exact string?_plain c rest ⟨Nat.le_of_lt (Nat.lt_of_not_le above),
      fun quote => usual (Or.inl quote), fun slash => usual (Or.inr slash)⟩

theorem string?_escape (text after : List Char) :
    string? (Frame.escape text ++ '"' :: after) = some (text.map spaced, after) := by
  induction text with
  | nil =>
    rw [Frame.escape, List.flatMap_nil, List.nil_append, string?.eq_def]
    rfl
  | cons c rest ih =>
    rw [Frame.escape, List.flatMap_cons, List.append_assoc, string?_escapeChar, ← Frame.escape, ih]
    rfl

theorem escape_plain (text : List Char) (plain : ∀ c ∈ text, Plain c) :
    Frame.escape text = text ∧ text.map spaced = text := by
  induction text with
  | nil => exact ⟨rfl, rfl⟩
  | cons c rest ih =>
    obtain ⟨visible, unquoted, unescaped⟩ := plain c (List.mem_cons_self ..)
    obtain ⟨same, kept⟩ := ih fun other member => plain other (List.mem_cons_of_mem _ member)
    have unchanged : spaced c = c := by
      unfold spaced
      split
      · rename_i low
        exact Char.le_antisymm visible low
      · rfl
    have literal : Frame.escapeChar c = [c] := by
      unfold Frame.escapeChar
      split
      · rename_i low
        rw [Char.le_antisymm visible low]
      · rw [if_neg (by simp [unquoted, unescaped])]
    refine ⟨?_, by rw [List.map_cons, unchanged, kept]⟩
    rw [Frame.escape, List.flatMap_cons, literal, ← Frame.escape, same, List.singleton_append]

theorem scans_quoted (text after : List Char) (tokens : List Token) (scans : Scans after tokens) :
    Scans (Frame.quoted text ++ after) (.string (String.ofList (text.map spaced)) :: tokens) := by
  have found := string?_escape text after
  rw [Frame.quoted, List.cons_append, List.cons_append, List.append_assoc, List.singleton_append]
  refine .token (by decide) ?_ ?_ scans
  · change ((string? _).map _) = _
    rw [found]
    rfl
  · rw [List.length_append, List.length_cons]
    omega

theorem reads_quoted (text : List Char) :
    Reads (Frame.quoted text) (.string (String.ofList (text.map spaced))) :=
  fun _ _ _ _ scans => scans_quoted _ _ _ scans

theorem spanDigits_lowerDigit (digits : List Nat) (small : ∀ digit ∈ digits, digit < 10)
    (stop : Char) (after : List Char) (stops : stop = ',' ∨ stop = '\x7d') :
    spanDigits (digits.map Numeral.lowerDigit ++ stop :: after) = (digits, stop :: after) := by
  induction digits with
  | nil =>
    have none : Numeral.digitValue? 10 stop = none := by
      rcases stops with rfl | rfl <;> decide
    simp [spanDigits, none]
  | cons digit rest ih =>
    have read := Numeral.writes_decimal digit (small digit (List.mem_cons_self ..))
    have others := ih fun other member => small other (List.mem_cons_of_mem _ member)
    simp only [List.map_cons, List.cons_append, spanDigits, read, others]

theorem whole?_digits (number : Nat) (stop : Char) (after : List Char)
    (stops : stop = ',' ∨ stop = '\x7d') :
    whole? (Numeral.decimal number ++ stop :: after) =
      some (Numeral.digits 10 number, stop :: after) := by
  have small := Numeral.digits_lt 10 number (by omega)
  unfold whole? Numeral.decimal
  rw [spanDigits_lowerDigit _ small _ _ stops]
  split
  · rename_i none
    exact absurd (Prod.mk.inj none).1 (Numeral.digits_ne_nil 10 number)
  · rename_i second rest _ several
    have leading := (Prod.mk.inj several).1
    have zero := Numeral.digits_eq_zero_cons 10 number _ leading
    subst zero
    rw [show Numeral.digits 10 0 = [0] by rw [Numeral.digits]; simp] at leading
    cases leading
  · rfl

theorem literal?_tail (negative : Bool) (whole : List Nat) (stop : Char) (after : List Char)
    (stops : stop = ',' ∨ stop = '\x7d') :
    (do
      let (fraction, text) ← fraction? (stop :: after)
      let (exponent, text) ← exponent? text
      return ((⟨negative, whole, fraction, exponent⟩ : Literal), text)) =
      some (⟨negative, whole, none, none⟩, stop :: after) := by
  rcases stops with rfl | rfl <;> rfl

theorem decimal_eq_cons (number : Nat) :
    ∃ c rest, Numeral.decimal number = c :: rest ∧ c ∈ "0123456789".toList := by
  have each := Numeral.forall_mem_decimal (show ∀ digit < 10, Numeral.lowerDigit digit ∈ "0123456789".toList by decide)
  obtain ⟨digit, rest, form⟩ := List.exists_cons_of_ne_nil (Numeral.digits_ne_nil 10 number)
  have whole : Numeral.decimal number = Numeral.lowerDigit digit :: rest.map Numeral.lowerDigit := by
    rw [Numeral.decimal, form, List.map_cons]
  exact ⟨_, _, whole, each number _ (whole ▸ List.mem_cons_self)⟩

theorem literal?_decimal (number : Nat) (stop : Char) (after : List Char)
    (stops : stop = ',' ∨ stop = '\x7d') :
    literal? (Numeral.decimal number ++ stop :: after) =
      some (⟨false, Numeral.digits 10 number, none, none⟩, stop :: after) := by
  have whole := whole?_digits number stop after stops
  obtain ⟨c, rest, form, member⟩ := decimal_eq_cons number
  have unsigned : c ≠ '-' := fun same => absurd member (by rw [same]; decide)
  unfold literal?
  split
  rename_i negative text taken
  split at taken
  · rename_i tail starts
    rw [form, List.cons_append, List.cons.injEq] at starts
    exact absurd starts.1 unsigned
  · obtain ⟨rfl, rfl⟩ := Prod.mk.inj taken
    rw [whole]
    exact literal?_tail false _ stop after stops

theorem literal?_negative (number : Nat) (stop : Char) (after : List Char)
    (stops : stop = ',' ∨ stop = '\x7d') :
    literal? ('-' :: Numeral.decimal number ++ stop :: after) =
      some (⟨true, Numeral.digits 10 number, none, none⟩, stop :: after) := by
  have whole := whole?_digits number stop after stops
  unfold literal?
  simp only [List.cons_append]
  rw [whole]
  exact literal?_tail true _ stop after stops

theorem le_foldl_digits (digits : List Nat) (word : Nat) :
    word ≤ digits.foldl (fun value digit => value * 10 + digit) word := by
  induction digits generalizing word with
  | nil => exact Nat.le_refl _
  | cons digit rest ih =>
    have step := ih (word * 10 + digit)
    rw [List.foldl_cons]
    omega

theorem packWord_fits (digits : List Nat) (word : Nat)
    (fits : digits.foldl (fun value digit => value * 10 + digit) word < UInt64.size) :
    packWord word digits = (digits.foldl (fun value digit => value * 10 + digit) word, []) := by
  induction digits generalizing word with
  | nil => rfl
  | cons digit rest ih =>
    have step := le_foldl_digits rest (word * 10 + digit)
    rw [List.foldl_cons] at fits ⊢
    rw [packWord, if_pos (by omega), ih _ fits]

theorem number?_word (number : Nat) (fits : number < UInt64.size) :
    (⟨false, Numeral.digits 10 number, none, none⟩ : Literal).number? = some (.integer number) := by
  have packed := packWord_fits (Numeral.digits 10 number) 0 (by rwa [Numeral.foldl_digits])
  rw [Numeral.foldl_digits] at packed
  simp [Literal.number?, packed]

theorem number?_negative (number : Nat) (positive : 0 < number) (fits : number ≤ 0x8000000000000000) :
    (⟨true, Numeral.digits 10 number, none, none⟩ : Literal).number? = some (.integer (-number)) := by
  have below : number < UInt64.size := by
    simp only [UInt64.size]
    omega
  have packed := packWord_fits (Numeral.digits 10 number) 0 (by rwa [Numeral.foldl_digits])
  rw [Numeral.foldl_digits] at packed
  simp [Literal.number?, packed, positive, fits]

theorem token?_numeral (c : Char) (rest : List Char) (starts : c ∈ "-0123456789".toList) :
    token? c rest =
      (literal? (c :: rest)).bind fun (literal, after) =>
        literal.number?.map fun number => (.number number, after) := by
  have numeral : token? c rest = (do
      let (literal, after) ← literal? (c :: rest)
      let number ← literal.number?
      return (.number number, after)) := by
    rw [token?.eq_def]
    split <;> first | exact absurd starts (by decide) | rfl
  rw [numeral]
  cases literal? (c :: rest) with
  | none => rfl
  | some found =>
    obtain ⟨literal, after⟩ := found
    cases read : literal.number? <;> simp [read]

theorem numeral_visible (c : Char) (starts : c ∈ "-0123456789".toList) : isBlank c = false :=
  (show ∀ c ∈ "-0123456789".toList, isBlank c = false by decide) c starts

theorem reads_decimal (number : Nat) (fits : number < UInt64.size) :
    Reads (Numeral.decimal number) (.number (.integer number)) := by
  intro stop after tokens stops scans
  have literal := literal?_decimal number stop after stops
  obtain ⟨c, rest, form, member⟩ := decimal_eq_cons number
  have starts : c ∈ "-0123456789".toList := List.mem_cons_of_mem '-' member
  rw [form, List.cons_append] at literal ⊢
  refine .token (numeral_visible c starts) ?_ (by simp) scans
  rw [token?_numeral c _ starts, literal]
  simp only [Option.bind_some, number?_word number fits, Option.map_some]

theorem reads_negative (number : Nat) (positive : 0 < number) (fits : number ≤ 0x8000000000000000) :
    Reads ('-' :: Numeral.decimal number) (.number (.integer (-number))) := by
  intro stop after tokens stops scans
  have literal := literal?_negative number stop after stops
  rw [List.cons_append] at literal ⊢
  refine .token (by decide) ?_ (by simp) scans
  rw [token?_numeral '-' _ (by decide), literal]
  simp only [Option.bind_some, number?_negative number positive fits, Option.map_some]

theorem reads_coordinate (value : Int32) :
    Reads (Numeral.signedDecimal value.toInt) (.number (.integer value.toInt)) := by
  have least := value.le_toInt
  have greatest := value.toInt_lt
  cases form : value.toInt with
  | ofNat number =>
    rw [form] at greatest
    exact reads_decimal number (by simp only [UInt64.size]; simp only [Int.ofNat_eq_natCast] at greatest; omega)
  | negSucc number =>
    rw [form] at least
    exact reads_negative (number + 1) (by omega) (by omega)

/-- A member of a record as it is written and as it is read. -/
structure Field where
  name : String
  text : List Char
  token : Token
  value : Value

structure Field.Sound (field : Field) : Prop where
  plain : ∀ c ∈ field.name.toList, Plain c
  reads : Reads field.text field.token
  begins : ∀ levels, begin? levels field.token = some (place field.value levels)

def Field.tokens : List Field → List Token
  | [] => []
  | [field] => [.string field.name, .colon, field.token]
  | field :: rest => .string field.name :: .colon :: field.token :: .comma :: Field.tokens rest

theorem scans_name (name : String) (plain : ∀ c ∈ name.toList, Plain c) (after : List Char)
    (tokens : List Token) (scans : Scans after tokens) :
    Scans ('"' :: name.toList ++ "\": ".toList ++ after) (.string name :: .colon :: tokens) := by
  obtain ⟨same, kept⟩ := escape_plain name.toList plain
  have quoted := scans_quoted name.toList (':' :: ' ' :: after) (.colon :: tokens)
    (scans_sign (by decide) (fun _ => rfl) (.blank (by decide) scans))
  rw [kept, String.ofList_toList] at quoted
  simpa [Frame.quoted, same] using quoted

theorem scans_members (fields : List Field) (nonempty : fields ≠ [])
    (sound : ∀ field ∈ fields, field.Sound) (after : List Char) (tokens : List Token)
    (scans : Scans ('\x7d' :: after) tokens) :
    Scans (Frame.members (fields.map fun field => (field.name, field.text)) ++ '\x7d' :: after)
      (Field.tokens fields ++ tokens) := by
  induction fields with
  | nil => exact absurd rfl nonempty
  | cons field rest ih =>
    have first := sound field (List.mem_cons_self ..)
    cases rest with
    | nil =>
      have value := first.reads '\x7d' after tokens (Or.inr rfl) scans
      have whole := scans_name field.name first.plain _ _ value
      simpa [Frame.members, Field.tokens] using whole
    | cons second others =>
      have more := ih (by simp) fun other member => sound other (List.mem_cons_of_mem _ member)
      have comma := scans_sign (c := ',') (by decide) (fun _ => rfl) (Scans.blank (c := ' ') (by decide) more)
      have value := first.reads ',' _ _ (Or.inl rfl) comma
      have whole := scans_name field.name first.plain _ _ value
      simpa [Frame.members, Field.tokens] using whole

theorem scans_line (tag : String) (plain : ∀ c ∈ tag.toList, Plain c) (fields : List Field)
    (nonempty : fields ≠ []) (sound : ∀ field ∈ fields, field.Sound) :
    Scans (Frame.line tag (fields.map fun field => (field.name, field.text)))
      (.beginArray :: .string tag :: .comma :: .beginObject ::
        (Field.tokens fields ++ [.endObject, .endArray])) := by
  obtain ⟨same, kept⟩ := escape_plain tag.toList plain
  have ending : Scans ['\x7d', ']', '\r', '\n'] [.endObject, .endArray] :=
    scans_sign (by decide) (fun _ => rfl) (scans_sign (by decide) (fun _ => rfl)
      (.blank (by decide) (.blank (by decide) .nil)))
  have body := scans_members fields nonempty sound _ _ ending
  have opened := scans_sign (c := ',') (by decide) (fun _ => rfl) (Scans.blank (c := ' ') (by decide)
    (scans_sign (c := '\x7b') (by decide) (fun _ => rfl) body))
  have tagged := scans_quoted tag.toList _ _ opened
  rw [kept, String.ofList_toList] at tagged
  have whole := scans_sign (c := '[') (by decide) (fun _ => rfl) tagged
  simpa [Frame.line, Frame.quoted, same] using whole

theorem foldlM_next {state next : State} {token : Token} (step : step? state token = some next)
    (tokens : List Token) : (token :: tokens).foldlM step? state = tokens.foldlM step? next := by
  rw [List.foldlM_cons, step]
  rfl

theorem foldlM_members (fields : List Field) (nonempty : fields ≠ [])
    (sound : ∀ field ∈ fields, field.Sound) (outer : List Level) (tokens : List Token)
    (before : List (String × Value)) (state : State)
    (ready : ∀ name, step? state (.string name) = some (.wantColon before name outer)) :
    (Field.tokens fields ++ tokens).foldlM step? state =
      tokens.foldlM step?
        (.afterMember ((fields.map fun field => (field.name, field.value)).reverse ++ before) outer) := by
  induction fields generalizing before state with
  | nil => exact absurd rfl nonempty
  | cons field rest ih =>
    have begins := (sound field (List.mem_cons_self ..)).begins (.object before field.name :: outer)
    have step : step? (.wantValue (.object before field.name :: outer)) field.token =
        some (.afterMember ((field.name, field.value) :: before) outer) := begins
    cases rest with
    | nil =>
      change (Token.string field.name :: .colon :: field.token :: tokens).foldlM step? state = _
      rw [foldlM_next (ready field.name), foldlM_next rfl, foldlM_next step]
      rfl
    | cons second others =>
      have more := ih (by simp) (fun other member => sound other (List.mem_cons_of_mem _ member))
        ((field.name, field.value) :: before)
        (.wantName ((field.name, field.value) :: before) outer) (fun _ => rfl)
      change (Token.string field.name :: .colon :: field.token :: .comma ::
        (Field.tokens (second :: others) ++ tokens)).foldlM step? state = _
      rw [foldlM_next (ready field.name), foldlM_next rfl, foldlM_next step, foldlM_next rfl, more,
        List.map_cons (l := second :: others), List.reverse_cons, List.append_assoc]
      rfl

theorem parse?_line (tag : String) (plain : ∀ c ∈ tag.toList, Plain c) (fields : List Field)
    (nonempty : fields ≠ []) (sound : ∀ field ∈ fields, field.Sound) :
    parse? (Frame.line tag (fields.map fun field => (field.name, field.text))) =
      some (.array [.string tag, .object (fields.map fun field => (field.name, field.value))]) := by
  have members := foldlM_members fields nonempty sound [.array [.string tag]] [.endObject, .endArray]
    [] (.wantFirstName [.array [.string tag]]) (fun _ => rfl)
  unfold parse?
  rw [(scans_line tag plain fields nonempty sound).tokens?, Option.bind_some]
  rw [foldlM_next rfl, foldlM_next rfl, foldlM_next rfl, foldlM_next rfl, members, foldlM_next rfl,
    foldlM_next rfl, List.append_nil, List.reverse_reverse]
  rfl

end TileRoom.Json
