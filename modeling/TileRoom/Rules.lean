/-! The limits both ends of a connection agree on, and the letters of the bag. -/

namespace TileRoom

def defaultPort : UInt16 := 5144

def maxPlayers : Nat := 6

/-- A client keeps records of players below this number only. -/
def visiblePlayers : Nat := 6

def tileCount : Nat := 122

def letterCounts : List (Char × Nat) :=
  [('A', 12), ('B', 2), ('C', 1), ('Ĉ', 1), ('D', 3), ('E', 12), ('F', 1), ('G', 1),
    ('Ĝ', 1), ('H', 1), ('Ĥ', 1), ('I', 11), ('J', 4), ('Ĵ', 1), ('K', 4), ('L', 7),
    ('M', 3), ('N', 10), ('O', 13), ('P', 3), ('R', 8), ('S', 7), ('Ŝ', 1), ('T', 7),
    ('U', 3), ('Ŭ', 1), ('V', 2), ('Z', 1)]

def fullBag : List Char :=
  letterCounts.flatMap fun (letter, count) => List.replicate count letter

/-- The letters of a bag drawn one by one, each from the place its pick points to
among those left. Letters without a pick stay as they are. -/
def shuffled : List Nat → List Char → List Char
  | pick :: picks, first :: rest =>
      let letters := first :: rest
      let place := pick % letters.length
      letters.getD place first :: shuffled picks (letters.eraseIdx place)
  | _, letters => letters

theorem fullBag_length : fullBag.length = tileCount := by decide

end TileRoom
