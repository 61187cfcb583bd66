import TileRoom.Text.Numeral

/-! Person ids. An id is written as sixteen upper-case hexadecimal digits and read
from sixteen digits of either case. -/

namespace TileRoom

abbrev PersonId := UInt64

namespace PersonId

def text (id : PersonId) : List Char :=
  (Numeral.fixedDigits 16 16 id.toNat).map Numeral.upperDigit

@[simp] theorem text_length (id : PersonId) : (text id).length = 16 := by
  simp [text]

def parse? (text : List Char) : Option PersonId :=
  if text.length = 16 then (Numeral.value? 16 text).map UInt64.ofNat else none

end PersonId

end TileRoom
