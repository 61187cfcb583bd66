/-! Numerals in a base. A number is written with its shortest digits or with a
fixed count of them; a numeral is read only when all its characters are digits,
and its value must stay within a limit. -/

namespace TileRoom.Numeral

def digits (base number : Nat) : List Nat :=
  if _h : 2 ≤ base ∧ base ≤ number then
    digits base (number / base) ++ [number % base]
  else [number]
termination_by number
decreasing_by exact Nat.div_lt_self (by omega) (by omega)

def fixedDigits (base : Nat) : Nat → Nat → List Nat
  | 0, _ => []
  | width + 1, number => fixedDigits base width (number / base) ++ [number % base]

@[simp] theorem fixedDigits_length (base width number : Nat) :
    (fixedDigits base width number).length = width := by
  induction width generalizing number with
  | zero => rfl
  | succ width ih => simp [fixedDigits, ih]

def lowerDigit (digit : Nat) : Char :=
  if digit < 10 then Char.ofNat (digit + 48) else Char.ofNat (digit + 87)

def upperDigit (digit : Nat) : Char :=
  if digit < 10 then Char.ofNat (digit + 48) else Char.ofNat (digit + 55)

def decimal (number : Nat) : List Char :=
  (digits 10 number).map lowerDigit

def signedDecimal : Int → List Char
  | .ofNat number => decimal number
  | .negSucc number => '-' :: decimal (number + 1)

def lowerHex (number : Nat) : List Char :=
  (digits 16 number).map lowerDigit

def digitValue? (base : Nat) (c : Char) : Option Nat :=
  let value :=
    if '0' ≤ c ∧ c ≤ '9' then some (c.toNat - 48)
    else if 'a' ≤ c ∧ c ≤ 'z' then some (c.toNat - 87)
    else if 'A' ≤ c ∧ c ≤ 'Z' then some (c.toNat - 55)
    else none
  value.filter (· < base)

def valueFrom? (base : Nat) : Nat → List Char → Option Nat
  | value, [] => some value
  | value, c :: rest =>
      match digitValue? base c with
      | some digit => valueFrom? base (value * base + digit) rest
      | none => none

def value? (base : Nat) (text : List Char) : Option Nat :=
  if text.isEmpty then none else valueFrom? base 0 text

def dropPlus : List Char → List Char
  | '+' :: rest => rest
  | text => text

/-- A numeral below `limit`; one plus sign may stand before it. -/
def readBelow? (base limit : Nat) (text : List Char) : Option Nat :=
  (value? base (dropPlus text)).filter (· < limit)

def readWord? (text : List Char) : Option Nat :=
  readBelow? 10 UInt64.size text

/-- A coordinate: a decimal numeral with an optional sign that fits 32 bits. -/
def readCoordinate? : List Char → Option Int32
  | '-' :: rest =>
      ((value? 10 rest).filter (· ≤ 0x80000000)).map fun value => Int32.ofInt (-value)
  | text => (readBelow? 10 0x80000000 text).map fun value => Int32.ofNat value

end TileRoom.Numeral
