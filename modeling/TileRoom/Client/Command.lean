import TileRoom.Request
import TileRoom.Text.Blank

/-! The commands of a player, and how they are typed. A line that starts with a
slash names a command; any other line that is not blank is said to the room. -/

namespace TileRoom

inductive Command where
  | shout
  | turn
  | move (tile : Nat) (x y : Int32)
  | say (text : String)
  | leave
deriving DecidableEq

inductive CommandError where
  | badMove
  | unknown (word : String)
deriving DecidableEq

def CommandError.message : CommandError → String
  | .badMove => "usage: /move TILE X Y"
  | .unknown word => "unknown command " ++ word

namespace Command

def request (id : PersonId) : Command → Request
  | .shout => .shout id
  | .turn => .turn id
  | .move tile x y => .moveTile id tile x y
  | .say text => .sendMessage id text
  | .leave => .leave id

def words : List Char → List (List Char)
  | [] => []
  | c :: rest =>
      if Blank.isBlank c then words rest
      else
        match rest, words rest with
        | next :: _, word :: others =>
            if Blank.isBlank next then [c] :: word :: others else (c :: word) :: others
        | _, others => [c] :: others

/-- A tile and where to put it; further words have no meaning. -/
def move? : List (List Char) → Option Command
  | tile :: x :: y :: _ => do
      return .move (← Numeral.readWord? tile) (← Numeral.readCoordinate? x)
        (← Numeral.readCoordinate? y)
  | _ => none

def ofWords : List (List Char) → Except CommandError Command
  | [] => .error (.unknown "")
  | word :: arguments =>
      match String.ofList word with
      | "/shout" => .ok .shout
      | "/turn" => .ok .turn
      | "/quit" => .ok .leave
      | "/move" => (move? arguments).elim (.error .badMove) .ok
      | other => .error (.unknown other)

def ofLine (line : String) : Except CommandError (Option Command) :=
  match Blank.trim line.toList with
  | [] => .ok none
  | '/' :: rest => (ofWords (words ('/' :: rest))).map some
  | text => .ok (some (.say (String.ofList text)))

end Command

end TileRoom
