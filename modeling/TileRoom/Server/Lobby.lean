import TileRoom.Room

/-! The rooms of a server. Every room has a number for good; under its name stands
the room that new players join, as long as it can be joined. -/

namespace TileRoom

abbrev RoomNum := Nat

structure Lobby where
  rooms : List Room := []
  pending : Table String RoomNum := .empty

namespace Lobby

def room? (lobby : Lobby) (num : RoomNum) : Option Room :=
  lobby.rooms[num]?

def isOpen (lobby : Lobby) (num : RoomNum) : Bool :=
  (lobby.room? num).any (·.isOpen)

def setRoom (lobby : Lobby) (num : RoomNum) (room : Room) : Lobby :=
  { lobby with rooms := lobby.rooms.set num room }

/-- The room to join under a name. When the last one was closed, a new room with
the given bag is made. -/
def enter (lobby : Lobby) (name : String) (bag : List Char) : RoomNum × Lobby :=
  match (lobby.pending.find? name).filter lobby.isOpen with
  | some num => (num, lobby)
  | none =>
      let num := lobby.rooms.length
      (num, { rooms := lobby.rooms ++ [.ofBag bag], pending := lobby.pending.put name num })

def prune (lobby : Lobby) : Lobby :=
  { lobby with pending := lobby.pending.keep fun _ num => lobby.isOpen num }

def act (lobby : Lobby) (num : RoomNum) (action : Action) : Option (Outcome Answer) × Lobby :=
  match lobby.room? num with
  | none => (none, lobby)
  | some room =>
      let (outcome, room) := room.act action
      (some outcome, lobby.setRoom num room)

end Lobby

end TileRoom
