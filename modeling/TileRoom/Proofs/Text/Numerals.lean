import Mathlib.Algebra.Group.Nat.Defs
import TileRoom.PersonId

/-! Numerals read back as the numbers they were written for, and a numeral has no more
digits than its number needs. -/

namespace TileRoom.Numeral

theorem digits_lt (base number : Nat) (two : 2 ≤ base) : ∀ digit ∈ digits base number, digit < base := by
  fun_induction digits base number with
  | case1 number larger ih =>
    intro digit member
    rcases List.mem_append.1 member with before | last
    · exact ih digit before
    · rw [List.mem_singleton.1 last]
      exact Nat.mod_lt _ (by omega)
  | case2 number small =>
    intro digit member
    rw [List.mem_singleton.1 member]
    omega

theorem forall_mem_decimal {P : Char → Prop} (each : ∀ digit < 10, P (lowerDigit digit)) (number : Nat) :
    ∀ c ∈ decimal number, P c := by
  intro c member
  obtain ⟨digit, known, rfl⟩ := List.mem_map.1 member
  exact each digit (digits_lt 10 number (by omega) digit known)

theorem foldl_digits (base number : Nat) :
    (digits base number).foldl (fun value digit => value * base + digit) 0 = number := by
  fun_induction digits base number with
  | case1 number larger ih =>
    rw [List.foldl_append, ih, List.foldl_cons, List.foldl_nil]
    exact Nat.div_add_mod' number base
  | case2 => simp

theorem digits_ne_nil (base number : Nat) : digits base number ≠ [] := by
  rw [digits]
  split <;> simp

theorem digits_eq_zero_cons (base number : Nat) (rest : List Nat)
    (leading : digits base number = 0 :: rest) : number = 0 := by
  fun_induction digits base number generalizing rest with
  | case1 number larger ih =>
    obtain ⟨first, others, form⟩ := List.exists_cons_of_ne_nil (digits_ne_nil base (number / base))
    rw [form, List.cons_append, List.cons.injEq] at leading
    have none := ih others (by rw [form, leading.1])
    have some : 0 < number / base := Nat.div_pos larger.2 (by omega)
    omega
  | case2 =>
    exact (List.cons.injEq .. ▸ leading).1

theorem digits_length_le_iff (base number width : Nat) (two : 2 ≤ base) (positive : 0 < width) :
    (digits base number).length ≤ width ↔ number < base ^ width := by
  induction width generalizing number with
  | zero => omega
  | succ width ih =>
    rw [digits]
    split
    · rename_i larger
      rw [List.length_append, List.length_singleton, Nat.add_le_add_iff_right]
      by_cases more : 0 < width
      · rw [ih (number / base) more, Nat.div_lt_iff_lt_mul (by omega), Nat.pow_succ]
      · obtain rfl : width = 0 := by omega
        have nonempty := List.length_pos_iff.2 (digits_ne_nil base (number / base))
        have := larger.2
        simp only [Nat.zero_add, Nat.pow_one]
        omega
    · rename_i smaller
      have least : base ^ 1 ≤ base ^ (width + 1) := Nat.pow_le_pow_right (by omega) (by omega)
      rw [Nat.pow_one] at least
      simp only [List.length_singleton]
      omega

theorem decimal_length_le (number width : Nat) (positive : 0 < width) :
    (decimal number).length ≤ width ↔ number < 10 ^ width := by
  rw [decimal, List.length_map]
  exact digits_length_le_iff 10 number width (by omega) positive

theorem lowerHex_length_le (number width : Nat) (positive : 0 < width) :
    (lowerHex number).length ≤ width ↔ number < 16 ^ width := by
  rw [lowerHex, List.length_map]
  exact digits_length_le_iff 16 number width (by omega) positive

/-- Characters for digits, each read back as its digit. -/
def Writes (base : Nat) (write : Nat → Char) : Prop :=
  ∀ digit < base, digitValue? base (write digit) = some digit

theorem writes_decimal : Writes 10 lowerDigit := by unfold Writes; decide

theorem writes_lowerHex : Writes 16 lowerDigit := by unfold Writes; decide

theorem writes_upperHex : Writes 16 upperDigit := by unfold Writes; decide

theorem valueFrom?_map {base : Nat} {write : Nat → Char} (writes : Writes base write)
    (digits : List Nat) (small : ∀ digit ∈ digits, digit < base) (value : Nat) :
    valueFrom? base value (digits.map write) =
      some (digits.foldl (fun value digit => value * base + digit) value) := by
  induction digits generalizing value with
  | nil => rfl
  | cons digit rest ih =>
    have read := writes digit (small digit (List.mem_cons_self ..))
    simp only [List.map_cons, valueFrom?, read, List.foldl_cons]
    exact ih (fun other member => small other (List.mem_cons_of_mem _ member)) _

theorem value?_digits {base : Nat} {write : Nat → Char} (writes : Writes base write)
    (two : 2 ≤ base) (number : Nat) :
    value? base ((digits base number).map write) = some number := by
  have small := digits_lt base number two
  unfold value?
  rw [if_neg (by simpa using digits_ne_nil base number), valueFrom?_map writes _ small,
    foldl_digits]

theorem digit_of_mem {base : Nat} {write : Nat → Char} (writes : Writes base write)
    (two : 2 ≤ base) (number : Nat) :
    ∀ c ∈ (digits base number).map write, ∃ digit < base, digitValue? base c = some digit := by
  intro c member
  obtain ⟨digit, known, rfl⟩ := List.mem_map.1 member
  have small := digits_lt base number two digit known
  exact ⟨digit, small, writes digit small⟩

theorem dropPlus_of_digit {base : Nat} (text : List Char)
    (digits : ∀ c ∈ text, ∃ digit < base, digitValue? base c = some digit) :
    dropPlus text = text := by
  unfold dropPlus
  split
  · obtain ⟨_, _, wrong⟩ := digits '+' (List.mem_cons_self ..)
    have none : digitValue? base '+' = none := by
      simp [digitValue?]
    rw [none] at wrong
    cases wrong
  · rfl

theorem readBelow?_digits {base : Nat} {write : Nat → Char} (writes : Writes base write)
    (two : 2 ≤ base) (number limit : Nat) :
    readBelow? base limit ((digits base number).map write) =
      if number < limit then some number else none := by
  unfold readBelow?
  rw [dropPlus_of_digit _ (digit_of_mem writes two number), value?_digits writes two]
  simp [Option.filter_some]

theorem readWord?_decimal (number : Nat) :
    readWord? (decimal number) = if number < UInt64.size then some number else none :=
  readBelow?_digits writes_decimal (by omega) number _

theorem readCoordinate?_unsigned (text : List Char) (unsigned : text.head? ≠ some '-') :
    readCoordinate? text = (readBelow? 10 0x80000000 text).map fun value => Int32.ofNat value := by
  unfold readCoordinate?
  split
  · exact absurd rfl unsigned
  · rfl

theorem readCoordinate?_signedDecimal (value : Int32) :
    readCoordinate? (signedDecimal value.toInt) = some value := by
  have least := value.le_toInt
  have greatest := value.toInt_lt
  cases form : value.toInt with
  | ofNat number =>
    rw [form, Int.ofNat_eq_natCast] at greatest
    have unsigned : (decimal number).head? ≠ some '-' := by
      intro sign
      obtain ⟨_, _, wrong⟩ := digit_of_mem writes_decimal (by omega) number '-'
        (List.mem_of_mem_head? sign)
      have none : digitValue? 10 '-' = none := by decide
      rw [none] at wrong
      cases wrong
    have read := readBelow?_digits writes_decimal (by omega) number 0x80000000
    rw [if_pos (by omega)] at read
    rw [signedDecimal, readCoordinate?_unsigned _ unsigned, decimal, read, Option.map_some]
    apply congrArg some
    calc Int32.ofNat number = Int32.ofInt (Int.ofNat number) := (Int32.ofInt_eq_ofNat).symm
      _ = Int32.ofInt value.toInt := by rw [form]
      _ = value := Int32.ofInt_toInt value
  | negSucc number =>
    rw [form] at least
    have read := value?_digits writes_decimal (by omega) (number + 1)
    have bound : number + 1 ≤ 0x80000000 := by omega
    rw [signedDecimal, readCoordinate?, decimal, read, Option.filter_some]
    simp only [bound, decide_true, if_true]
    apply congrArg some
    calc Int32.ofInt (-((number + 1 : Nat) : Int)) = Int32.ofInt (Int.negSucc number) := rfl
      _ = Int32.ofInt value.toInt := by rw [form]
      _ = value := Int32.ofInt_toInt value

theorem foldl_fixedDigits (base width number value : Nat) :
    (fixedDigits base width number).foldl (fun value digit => value * base + digit) value =
      value * base ^ width + number % base ^ width := by
  induction width generalizing number with
  | zero => simp [fixedDigits, Nat.mod_one]
  | succ width ih =>
    rw [fixedDigits, List.foldl_append, ih, List.foldl_cons, List.foldl_nil, Nat.pow_succ,
      Nat.mul_comm (base ^ width) base, Nat.mod_mul, Nat.add_mul]
    have split : value * base ^ width * base = value * (base * base ^ width) := by
      rw [Nat.mul_assoc, Nat.mul_comm (base ^ width) base]
    rw [split]
    have order : number / base % base ^ width * base = base * (number / base % base ^ width) :=
      Nat.mul_comm _ _
    omega

theorem fixedDigits_lt (base width number : Nat) (positive : 0 < base) :
    ∀ digit ∈ fixedDigits base width number, digit < base := by
  induction width generalizing number with
  | zero => simp [fixedDigits]
  | succ width ih =>
    intro digit member
    rcases List.mem_append.1 member with before | last
    · exact ih (number / base) digit before
    · rw [List.mem_singleton.1 last]
      exact Nat.mod_lt _ positive

end TileRoom.Numeral

namespace TileRoom.PersonId

open Numeral

theorem value?_text (id : PersonId) : value? 16 (text id) = some id.toNat := by
  have filled : (text id).isEmpty = false := by
    rw [List.isEmpty_eq_false_iff, ← List.length_pos_iff, text_length]
    omega
  unfold value?
  rw [filled]
  simp only [Bool.false_eq_true, if_false, text]
  have small : id.toNat < 16 ^ 16 := Nat.lt_of_lt_of_le id.toNat_lt (by decide)
  rw [valueFrom?_map writes_upperHex _ (fixedDigits_lt 16 16 id.toNat (by omega)),
    foldl_fixedDigits, Nat.zero_mul, Nat.zero_add, Nat.mod_eq_of_lt small]

theorem text_digits (id : PersonId) :
    ∀ c ∈ text id, ∃ digit < 16, digitValue? 16 c = some digit := by
  intro c member
  obtain ⟨digit, known, rfl⟩ := List.mem_map.1 member
  have small := fixedDigits_lt 16 16 id.toNat (by omega) digit known
  exact ⟨digit, small, writes_upperHex digit small⟩

theorem readBelow?_text (id : PersonId) : readBelow? 16 UInt64.size (text id) = some id.toNat := by
  unfold readBelow?
  rw [dropPlus_of_digit _ (text_digits id), value?_text]
  simp [Option.filter_some, id.toNat_lt]

theorem parse?_text (id : PersonId) : parse? (text id) = some id := by
  unfold parse?
  rw [if_pos (text_length id), value?_text]
  simp

end TileRoom.PersonId
