import Mathlib.Data.List.Forall2
import Mathlib.Data.Nat.Digits.Defs
import TileRoom.Proofs.Text.Numerals
import TileRoom.Text.Blank

/-! What a numeral spells. A text is read as a number when its characters are digits of the base,
the most significant first. A decimal numeral without zeros in front is the one its number is
written with. -/

namespace TileRoom.Numeral

variable {base number : Nat} {text : List Char}

def Digits (base : Nat) (text : List Char) (digits : List Nat) : Prop :=
  List.Forall₂ (fun c digit => digitValue? base c = some digit) text digits

/-- A text of one or more digits, and the number they make. -/
def Spells (base : Nat) (text : List Char) (number : Nat) : Prop :=
  text ≠ [] ∧ ∃ digits, Digits base text digits ∧ number = Nat.ofDigits base digits.reverse

theorem digitValue?_lt {c : Char} {digit : Nat} (read : digitValue? base c = some digit) : digit < base := by
  rw [digitValue?, Option.filter_eq_some_iff] at read
  exact of_decide_eq_true read.2

theorem Digits.lt {digits : List Nat} (read : Digits base text digits) : ∀ digit ∈ digits, digit < base := by
  induction read with
  | nil => simp
  | cons first _ ih => exact List.forall_mem_cons.2 ⟨digitValue?_lt first, ih⟩

theorem ofDigits_reverse (base : Nat) (digits : List Nat) :
    Nat.ofDigits base digits.reverse = digits.foldl (fun value digit => value * base + digit) 0 := by
  rw [Nat.ofDigits_eq_foldr, List.foldr_reverse]
  congr 1
  funext value digit
  rw [Nat.add_comm, Nat.mul_comm]
  rfl

theorem valueFrom?_eq_some_iff (value : Nat) :
    valueFrom? base value text = some number ↔
      ∃ digits, Digits base text digits ∧
        number = digits.foldl (fun value digit => value * base + digit) value := by
  induction text generalizing value with
  | nil => simp [valueFrom?, Digits, eq_comm]
  | cons c rest ih =>
    simp only [valueFrom?, Digits, List.forall₂_cons_left_iff]
    cases read : digitValue? base c with
    | none => simp
    | some digit =>
      simp only [ih, Option.some.injEq]
      constructor
      · rintro ⟨digits, each, rfl⟩
        exact ⟨digit :: digits, ⟨digit, digits, rfl, each, rfl⟩, rfl⟩
      · rintro ⟨_, ⟨_, digits, rfl, each, rfl⟩, rfl⟩
        exact ⟨digits, each, rfl⟩

theorem value?_eq_some_iff : value? base text = some number ↔ Spells base text number := by
  simp only [value?, Spells, ofDigits_reverse]
  cases text with
  | nil => simp
  | cons c rest =>
    simp only [List.isEmpty_cons, Bool.false_eq_true, if_false, ne_eq, reduceCtorEq, not_false_eq_true, true_and]
    exact valueFrom?_eq_some_iff 0

theorem Spells.lt (spells : Spells base text number) (two : 2 ≤ base) : number < base ^ text.length := by
  obtain ⟨-, digits, read, rfl⟩ := spells
  have bound := Nat.ofDigits_lt_base_pow_length (by omega) fun digit member => read.lt digit (List.mem_reverse.1 member)
  rwa [List.length_reverse, ← read.length_eq] at bound

theorem Spells.isDigit (spells : Spells base text number) : ∀ c ∈ text, (digitValue? base c).isSome = true := by
  obtain ⟨-, digits, read, -⟩ := spells
  induction read with
  | nil => simp
  | cons first _ ih => exact List.forall_mem_cons.2 ⟨by rw [first]; rfl, ih⟩

theorem Spells.dropPlus (spells : Spells base text number) : Numeral.dropPlus text = text :=
  dropPlus_of_digit text fun c member =>
    have ⟨digit, read⟩ := Option.isSome_iff_exists.1 (spells.isDigit c member)
    ⟨digit, digitValue?_lt read, read⟩

theorem spells_digits {write : Nat → Char} (writes : Writes base write) (two : 2 ≤ base) (number : Nat) :
    Spells base ((digits base number).map write) number :=
  value?_eq_some_iff.1 (value?_digits writes two number)

theorem spells_decimal (number : Nat) : Spells 10 (decimal number) number :=
  spells_digits writes_decimal (by omega) number

theorem spells_lowerHex (number : Nat) : Spells 16 (lowerHex number) number :=
  spells_digits writes_lowerHex (by omega) number

theorem digitValue?_ranges {c : Char} {digit : Nat} (read : digitValue? base c = some digit) :
    (48 ≤ c.toNat ∧ c.toNat ≤ 57 ∧ c.toNat = digit + 48) ∨
      (65 ≤ c.toNat ∧ c.toNat ≤ 90 ∧ c.toNat = digit + 55) ∨
      (97 ≤ c.toNat ∧ c.toNat ≤ 122 ∧ c.toNat = digit + 87) := by
  have between (first last : Char) : (first ≤ c ∧ c ≤ last) ↔ first.toNat ≤ c.toNat ∧ c.toNat ≤ last.toNat := by
    simp only [Char.le_def, UInt32.le_iff_toNat_le, ← Char.toNat_val]
  have codes : '0'.toNat = 48 ∧ '9'.toNat = 57 ∧ 'A'.toNat = 65 ∧ 'Z'.toNat = 90 ∧ 'a'.toNat = 97 ∧ 'z'.toNat = 122 := by
    decide
  simp only [digitValue?, Option.filter_eq_some_iff, between, codes] at read
  obtain ⟨value, -⟩ := read
  split at value
  · have := Option.some.inj value
    omega
  split at value
  · have := Option.some.inj value
    omega
  split at value
  · have := Option.some.inj value
    omega
  · cases value

theorem eq_lowerDigit {c : Char} {digit : Nat} (read : digitValue? 10 c = some digit) : c = lowerDigit digit := by
  have small := digitValue?_lt read
  have ranges := digitValue?_ranges read
  have code : c.toNat = digit + 48 := by omega
  rw [lowerDigit, if_pos small, ← code, Char.ofNat_toNat]

theorem isBlank_of_digit {c : Char} (digit : (digitValue? base c).isSome = true) : Blank.isBlank c = false := by
  obtain ⟨value, read⟩ := Option.isSome_iff_exists.1 digit
  have ranges := digitValue?_ranges read
  rw [Blank.isBlank, List.any_eq_false]
  intro range member
  simp only [Blank.ranges, List.mem_cons, List.not_mem_nil, or_false] at member
  simp only [Bool.and_eq_true, decide_eq_true_eq]
  rcases member with rfl | rfl | rfl | rfl | rfl | rfl | rfl | rfl | rfl | rfl <;> omega

theorem ascii_of_digit {c : Char} (digit : (digitValue? base c).isSome = true) : c.toNat < 0x80 := by
  obtain ⟨value, read⟩ := Option.isSome_iff_exists.1 digit
  have ranges := digitValue?_ranges read
  omega

theorem not_mem_of_digits {c : Char} (mark : digitValue? base c = none)
    (digits : ∀ c ∈ text, (digitValue? base c).isSome = true) : c ∉ text := by
  intro member
  have digit := digits c member
  rw [mark] at digit
  cases digit

theorem digits_eq_reverse (two : 2 ≤ base) (positive : 0 < number) :
    digits base number = (Nat.digits base number).reverse := by
  fun_induction digits base number with
  | case1 number larger ih =>
    rw [Nat.digits_of_two_le_of_pos two positive, List.reverse_cons,
      ih (Nat.div_pos larger.2 (by omega))]
  | case2 number small =>
    have single : number < base := by omega
    rw [Nat.digits_of_lt base number (by omega) single, List.reverse_singleton]

theorem digits_ofDigits {digits : List Nat} (two : 2 ≤ base) (small : ∀ digit ∈ digits, digit < base)
    (nonempty : digits ≠ []) (leading : digits.head? = some 0 → digits.length = 1) :
    Numeral.digits base (Nat.ofDigits base digits.reverse) = digits := by
  by_cases zero : digits.head? = some 0
  · obtain ⟨digit, rfl⟩ := List.length_eq_one_iff.1 (leading zero)
    obtain rfl := Option.some.inj zero
    rw [List.reverse_singleton, Nat.ofDigits_singleton, Numeral.digits, dif_neg (by omega)]
  · have reversed : digits.reverse ≠ [] := by rwa [ne_eq, List.reverse_eq_nil_iff]
    have canonical : Nat.digits base (Nat.ofDigits base digits.reverse) = digits.reverse := by
      apply Nat.digits_ofDigits base two
      · exact fun digit member => small digit (List.mem_reverse.1 member)
      · intro some last
        rw [List.getLast_reverse] at last
        exact zero (last ▸ List.head?_eq_some_head _)
    have positive : 0 < Nat.ofDigits base digits.reverse := by
      by_contra none
      rw [Nat.eq_zero_of_not_pos none, Nat.digits_zero] at canonical
      exact reversed canonical.symm
    rw [digits_eq_reverse two positive, canonical, List.reverse_reverse]

theorem Spells.eq_decimal (spells : Spells 10 text number) (leading : text.head? = some '0' → text.length = 1) :
    text = decimal number := by
  obtain ⟨nonempty, digits, read, rfl⟩ := spells
  have form : text = digits.map lowerDigit := by
    clear nonempty leading
    induction read with
    | nil => rfl
    | cons first _ ih => rw [List.map_cons, ← eq_lowerDigit first, ← ih]
  have some : digits ≠ [] := by
    rintro rfl
    exact nonempty form
  rw [decimal, digits_ofDigits (by omega) read.lt some, form]
  intro zero
  rw [← read.length_eq]
  apply leading
  rw [form, List.head?_map, zero]
  rfl

theorem decimal_leading (number : Nat) (zero : (decimal number).head? = some '0') : (decimal number).length = 1 := by
  obtain ⟨first, rest, form⟩ := List.exists_cons_of_ne_nil (digits_ne_nil 10 number)
  have small := digits_lt 10 number (by omega) first (form ▸ List.mem_cons_self)
  have others : ∀ digit < 10, lowerDigit digit = '0' → digit = 0 := by decide
  rw [decimal, form] at zero ⊢
  obtain rfl := others first small (Option.some.inj zero)
  obtain rfl := digits_eq_zero_cons 10 number rest form
  have single : digits 10 0 = [0] := by
    rw [digits, dif_neg (by omega)]
  rw [single] at form
  rw [← form]
  rfl

end TileRoom.Numeral
