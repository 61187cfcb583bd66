/-! Text as bytes. `encode` writes characters in UTF-8 and `pieces` reads bytes
back one at a time, giving a character or a mark for each run that breaks off,
so the strict and the lenient decoder differ only in what they do with marks. -/

namespace TileRoom

abbrev Bytes := List UInt8

namespace Utf8

def encodeChar (c : Char) : Bytes :=
  let code := c.toNat
  if code < 0x80 then [UInt8.ofNat code]
  else if code < 0x800 then
    [UInt8.ofNat (0xC0 + code / 0x40), UInt8.ofNat (0x80 + code % 0x40)]
  else if code < 0x10000 then
    [UInt8.ofNat (0xE0 + code / 0x1000), UInt8.ofNat (0x80 + code / 0x40 % 0x40),
      UInt8.ofNat (0x80 + code % 0x40)]
  else
    [UInt8.ofNat (0xF0 + code / 0x40000), UInt8.ofNat (0x80 + code / 0x1000 % 0x40),
      UInt8.ofNat (0x80 + code / 0x40 % 0x40), UInt8.ofNat (0x80 + code % 0x40)]

def encode (text : List Char) : Bytes :=
  text.flatMap encodeChar

/-- A character whose first byte was read and whose last was not: `missing` bytes
are still owed and the next of them lies between `low` and `high`. -/
structure Pending where
  missing : Nat
  low : Nat
  high : Nat
  code : Nat
deriving DecidableEq

/-- A first byte is a whole character, opens a longer one, or is a broken piece. -/
def start (byte : UInt8) : List (Option Char) × Option Pending :=
  let value := byte.toNat
  if value < 0x80 then ([some (Char.ofNat value)], none)
  else if value < 0xC2 then ([none], none)
  else if value < 0xE0 then ([], some ⟨1, 0x80, 0xBF, value - 0xC0⟩)
  else if value = 0xE0 then ([], some ⟨2, 0xA0, 0xBF, 0⟩)
  else if value = 0xED then ([], some ⟨2, 0x80, 0x9F, 0xD⟩)
  else if value < 0xF0 then ([], some ⟨2, 0x80, 0xBF, value - 0xE0⟩)
  else if value = 0xF0 then ([], some ⟨3, 0x90, 0xBF, 0⟩)
  else if value < 0xF4 then ([], some ⟨3, 0x80, 0xBF, value - 0xF0⟩)
  else if value = 0xF4 then ([], some ⟨3, 0x80, 0x8F, 4⟩)
  else ([none], none)

/-- A byte outside the range the pending character allows breaks that character
off and is read again as a first byte. -/
def step (pending : Option Pending) (byte : UInt8) : List (Option Char) × Option Pending :=
  match pending with
  | none => start byte
  | some before =>
      if before.low ≤ byte.toNat ∧ byte.toNat ≤ before.high then
        let code := before.code * 0x40 + byte.toNat % 0x40
        if before.missing ≤ 1 then ([some (Char.ofNat code)], none)
        else ([], some ⟨before.missing - 1, 0x80, 0xBF, code⟩)
      else (none :: (start byte).1, (start byte).2)

def piecesFrom : Option Pending → Bytes → List (Option Char)
  | none, [] => []
  | some _, [] => [none]
  | pending, byte :: rest => (step pending byte).1 ++ piecesFrom (step pending byte).2 rest

/-- The characters of a byte text in order, `none` for each broken piece. -/
def pieces (bytes : Bytes) : List (Option Char) :=
  piecesFrom none bytes

def decode? (bytes : Bytes) : Option (List Char) :=
  (pieces bytes).mapM id

def decodeLossy (bytes : Bytes) : List Char :=
  (pieces bytes).map (·.getD '\uFFFD')

@[simp] theorem encode_nil : encode [] = [] := rfl

@[simp] theorem encode_append (left right : List Char) :
    encode (left ++ right) = encode left ++ encode right := by
  simp [encode]

end Utf8

def bytesOf (text : String) : Bytes :=
  Utf8.encode text.toList

end TileRoom
