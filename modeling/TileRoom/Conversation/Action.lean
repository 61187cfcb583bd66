import TileRoom.Conversation.Basic

/-! The operations on a room as values, so that a run of a room is a list. -/

namespace TileRoom

inductive Action where
  | join (name : String)
  | start
  | say (player : Nat) (text : String)
  | typing (player : Nat) (value : Bool)
  | leave (player : Nat)
  | shout (player now : Nat)
  | expire (now duration : Nat)
  | turn (player : Nat)
  | move (player tile : Nat) (x y : Int32)
deriving DecidableEq

/-- What an operation answers: nothing, whether it had its effect, or the number of
the player or tile it made. -/
inductive Answer where
  | nothing
  | flag (value : Bool)
  | number (value : Option Nat)
deriving DecidableEq

def Outcome.map {left right : Type} (f : left → right) (outcome : Outcome left) :
    Outcome right :=
  { answer := f outcome.answer, after := outcome.after, notices := outcome.notices }

namespace Conversation

def act (room : Conversation) : Action → Outcome Answer
  | .join name => (room.join name).map .number
  | .start => room.start.map fun _ => .nothing
  | .say player text => (room.say player text).map fun _ => .nothing
  | .typing player value => (room.setTyping player value).map fun _ => .nothing
  | .leave player => (room.leave player).map fun _ => .nothing
  | .shout player now => (room.beginShout player now).map .flag
  | .expire now duration => (room.expireShout now duration).map fun _ => .nothing
  | .turn player => (room.turn player).map .number
  | .move player tile x y => (room.move player tile x y).map fun _ => .nothing

def run (room : Conversation) (actions : List Action) : Conversation :=
  actions.foldl (fun room action => (room.act action).after) room

end Conversation

end TileRoom
