/-! Blank characters: those Unicode gives the property White_Space. Trimming takes
them from both ends of a text and leaves the inside alone. -/

namespace TileRoom.Blank

/-- The ranges of code points that are blank, both ends included. -/
def ranges : List (Nat × Nat) :=
  [(0x09, 0x0D), (0x20, 0x20), (0x85, 0x85), (0xA0, 0xA0), (0x1680, 0x1680),
    (0x2000, 0x200A), (0x2028, 0x2029), (0x202F, 0x202F), (0x205F, 0x205F), (0x3000, 0x3000)]

def isBlank (c : Char) : Bool :=
  ranges.any fun (first, last) => first ≤ c.toNat && c.toNat ≤ last

def trimWhere {α : Type} (unwanted : α → Bool) (items : List α) : List α :=
  ((items.dropWhile unwanted).reverse.dropWhile unwanted).reverse

def trim (text : List Char) : List Char :=
  trimWhere isBlank text

end TileRoom.Blank
