import TileRoom.Address
import TileRoom.Server.Lobby

/-! The persons of a server. A person is one player of one room and is known by an
id; a person whom no stream watches and who stays silent too long is removed. Times
are in nanoseconds. -/

namespace TileRoom

structure Person where
  id : PersonId
  room : RoomNum
  player : Nat
  remote : Address
  lastSeen : Nat
  watchers : Nat := 0

def Person.isTimedOut (person : Person) (timeout now : Nat) : Bool :=
  person.watchers = 0 && timeout < now - person.lastSeen

structure Registry where
  lobby : Lobby := {}
  persons : Table PersonId Person := .empty

/-- What chance gives to one join: the ids drawn, and the bag of a new room. -/
structure Draw where
  ids : List PersonId
  bag : List Char

namespace Registry

def person? (registry : Registry) (id : PersonId) : Option Person :=
  registry.persons.find? id

def freshId? (registry : Registry) (ids : List PersonId) : Option PersonId :=
  ids.find? fun id => !registry.persons.contains id

def act (registry : Registry) (room : RoomNum) (action : Action) : Registry :=
  { registry with lobby := (registry.lobby.act room action).2 }

/-- Joins a room as a new player. There is no person only if no free id was drawn. -/
def join (registry : Registry) (room name : String) (remote : Address) (now : Nat)
    (draw : Draw) : Option Person × Registry :=
  let (num, lobby) := registry.lobby.enter room draw.bag
  match registry.freshId? draw.ids, lobby.act num (.join name) with
  | some id, (some { answer := .number (some player), .. }, lobby) =>
      let person : Person := { id, room := num, player, remote, lastSeen := now }
      (some person, { lobby := lobby.prune, persons := registry.persons.put id person })
  | _, _ => (none, registry)

def touch (registry : Registry) (id : PersonId) (now : Nat) : Option Person × Registry :=
  let registry := { registry with
    persons := registry.persons.update id fun person => { person with lastSeen := now } }
  (registry.person? id, registry)

def attach (registry : Registry) (id : PersonId) (now : Nat) : Bool × Registry :=
  (registry.persons.contains id,
    { registry with persons := registry.persons.update id fun person =>
        { person with watchers := person.watchers + 1, lastSeen := now } })

/-- A stream of a person ended; silence counts from this moment. -/
def detach (registry : Registry) (id : PersonId) (now : Nat) : Registry :=
  { registry with persons := registry.persons.update id fun person =>
      { person with watchers := person.watchers - 1, lastSeen := now } }

def remove (registry : Registry) (id : PersonId) : Bool × Registry :=
  match registry.person? id with
  | none => (false, registry)
  | some person =>
      (true, { registry with persons := registry.persons.erase id }.act person.room
        (.leave person.player))

def timedOut (registry : Registry) (timeout now : Nat) : List PersonId :=
  (registry.persons.values.filter (·.isTimedOut timeout now)).map (·.id)

def expirePersons (registry : Registry) (timeout now : Nat) : List PersonId × Registry :=
  let ids := registry.timedOut timeout now
  (ids, ids.foldl (fun registry id => (registry.remove id).2) registry)

def activeRooms (registry : Registry) : List RoomNum :=
  (registry.persons.values.map (·.room)).eraseDups

/-- One pass over all time limits: silent persons first, then old shouts in the
rooms that still have persons. -/
def checkTimeouts (registry : Registry) (personTimeout shoutDuration now : Nat) : Registry :=
  let registry := (registry.expirePersons personTimeout now).2
  registry.activeRooms.foldl
    (fun registry room => registry.act room (.expire now shoutDuration)) registry

end Registry

end TileRoom
