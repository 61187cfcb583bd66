import TileRoom.Text.Cut
import TileRoom.Text.Numeral
import TileRoom.Text.Utf8

/-! Form encoding of text in a query. Letters, digits and four marks stand for
themselves, a space is a plus sign, and every other byte is a percent sign with
two upper-case hexadecimal digits. -/

namespace TileRoom.Form

def isPlain (byte : UInt8) : Bool :=
  let value := byte.toNat
  (0x30 ≤ value && value ≤ 0x39) || (0x41 ≤ value && value ≤ 0x5A) ||
    (0x61 ≤ value && value ≤ 0x7A) ||
    value = 0x2A || value = 0x2D || value = 0x2E || value = 0x5F

def encodeByte (byte : UInt8) : List Char :=
  if isPlain byte then [Char.ofNat byte.toNat]
  else if byte.toNat = 0x20 then ['+']
  else '%' :: (Numeral.fixedDigits 16 2 byte.toNat).map Numeral.upperDigit

def encode (text : List Char) : List Char :=
  (Utf8.encode text).flatMap encodeByte

def hexDigit? (byte : UInt8) : Option Nat :=
  Numeral.digitValue? 16 (Char.ofNat byte.toNat)

/-- A percent sign without two hexadecimal digits after it stands for itself. -/
def decodePercents : Bytes → Bytes
  | first :: high :: low :: rest =>
      match decide (first.toNat = 0x25), hexDigit? high, hexDigit? low with
      | true, some high, some low => UInt8.ofNat (high * 16 + low) :: decodePercents rest
      | _, _, _ => first :: decodePercents (high :: low :: rest)
  | first :: rest => first :: decodePercents rest
  | [] => []

def plusToSpace (byte : UInt8) : UInt8 :=
  if byte.toNat = 0x2B then 0x20 else byte

def decode (bytes : Bytes) : List Char :=
  Utf8.decodeLossy (decodePercents (bytes.map plusToSpace))

/-- The name and the value of a piece: what stands before and after its first
equals sign. -/
def pair (piece : Bytes) : List Char × List Char :=
  match Cut.first? 0x3D piece with
  | some (name, value) => (decode name, decode value)
  | none => (decode piece, [])

/-- The pairs of a query. Ampersands separate them and empty pieces give none. -/
def pairs (query : Bytes) : List (List Char × List Char) :=
  ((Cut.all 0x26 query).filter (!·.isEmpty)).map pair

end TileRoom.Form
