import TileRoom.Status

/-! What a client learns from its stream, and what it does by itself, as events in
the order they happen. -/

namespace TileRoom

inductive Event where
  | header (self : Nat)
  | name (player : Nat) (name : String)
  | status (player : Nat) (status : Status)
  | shouting (player : Nat) (value : Bool)
  | tile (num : Nat) (x y : Int32) (letter : Char) (lastPlayer : Option Nat) (isNew : Bool)
  | message (player : Nat) (text : String)
  | failure (message : String)
  | running (value : Bool)
  | phaseChanged
  | commandsWaiting
deriving DecidableEq

/-- Whether an event is news for the game; that commands wait concerns the sender
of commands only. -/
def Event.isPublic : Event → Bool
  | .commandsWaiting => false
  | _ => true

end TileRoom
