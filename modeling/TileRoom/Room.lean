import TileRoom.Conversation.Action
import TileRoom.Response.WatchStream
import TileRoom.Signal
import TileRoom.Table

/-! A room with the streams that watch it. Each stream listens to both signals of
the room under ids of its own; a change in the room goes out on one of the signals
and reaches every stream that listens to it. -/

namespace TileRoom

abbrev WatchId := Nat

structure Watch where
  stream : WatchStream
  changed : ListenerId
  playerChanged : ListenerId

structure Room where
  conversation : Conversation
  changed : Signal WatchId := .empty
  playerChanged : Signal WatchId := .empty
  nextWatch : WatchId := 0
  watches : Table WatchId Watch := .empty

namespace Room

def ofBag (bag : List Char) : Room :=
  { conversation := .ofBag bag }

def isOpen (room : Room) : Bool :=
  room.conversation.isOpen

def signalOf (room : Room) : Change → Signal WatchId
  | .player _ => room.playerChanged
  | _ => room.changed

def updateStream (room : Room) (watch : WatchId) (f : WatchStream → WatchStream) : Room :=
  { room with watches := room.watches.update watch fun found =>
      { found with stream := f found.stream } }

def tell (room : Room) (change : Change) : Room :=
  ((room.signalOf change).emit change).foldl
    (fun room (watch, change) => room.updateStream watch (·.note change)) room

def act (room : Room) (action : Action) : Outcome Answer × Room :=
  let outcome := room.conversation.act action
  (outcome, outcome.changes.foldl tell { room with conversation := outcome.after })

def watch (room : Room) (id : PersonId) (player lastMessage : Nat)
    (keyHash : Option Key.Hash) : WatchId × Room :=
  let watch := room.nextWatch
  let stream := WatchStream.opened room.conversation id player lastMessage keyHash
  let (changedId, changed) := room.changed.subscribe watch
  let (playerChangedId, playerChanged) := room.playerChanged.subscribe watch
  (watch, { room with
    changed
    playerChanged
    nextWatch := watch + 1
    watches := room.watches.put watch ⟨stream, changedId, playerChangedId⟩ })

/-- Closes a stream and tells whether its listeners were found. -/
def unwatch (room : Room) (watch : WatchId) : Option (Bool × Bool) × Room :=
  match room.watches.find? watch with
  | none => (none, room)
  | some found =>
      let (one, changed) := room.changed.unsubscribe found.changed
      let (other, playerChanged) := room.playerChanged.unsubscribe found.playerChanged
      (some (one, other), { room with
        changed
        playerChanged
        watches := room.watches.erase watch })

def stream? (room : Room) (watch : WatchId) : Option WatchStream :=
  (room.watches.find? watch).map (·.stream)

def read (room : Room) (watch : WatchId) (size : Nat) : Bytes × Room :=
  match room.stream? watch with
  | none => ([], room)
  | some stream =>
      let (bytes, stream) := stream.read room.conversation size
      (bytes, room.updateStream watch fun _ => stream)

/-- Whether a stream was notified since this was last asked. -/
def takeNotice (room : Room) (watch : WatchId) : Bool × Room :=
  ((room.stream? watch).any (·.notified),
    room.updateStream watch ({ · with notified := false }))

def hasPending (room : Room) (watch : WatchId) : Bool :=
  (room.stream? watch).any (·.hasPending room.conversation)

end Room

end TileRoom
