import TileRoom.Text.Numeral
import TileRoom.Text.Utf8

/-! Bytes as hexadecimal text, two lower-case digits for each. Digits of either case
are read. -/

namespace TileRoom.Hex

def encode (bytes : Bytes) : List Char :=
  bytes.flatMap fun byte => (Numeral.fixedDigits 16 2 byte.toNat).map Numeral.lowerDigit

def decode? : List Char → Option Bytes
  | [] => some []
  | high :: low :: rest => do
      let value := (← Numeral.digitValue? 16 high) * 16 + (← Numeral.digitValue? 16 low)
      return UInt8.ofNat value :: (← decode? rest)
  | [_] => none

theorem encode_length (bytes : Bytes) : (encode bytes).length = 2 * bytes.length := by
  induction bytes with
  | nil => rfl
  | cons byte rest ih =>
    simp only [encode, List.flatMap_cons, List.length_append, List.length_map,
      Numeral.fixedDigits_length, List.length_cons] at ih ⊢
    omega

end TileRoom.Hex
