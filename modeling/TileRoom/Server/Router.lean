import TileRoom.Request
import TileRoom.Server.Registry

/-! Requests answered by a server. A target that is no request is answered without
a look at the registry, and a request for an unknown person changes nothing. -/

namespace TileRoom

inductive Response where
  | reply (reply : Reply)
  | stream (room : RoomNum) (watch : WatchId)

/-- An answer, and the person whose stream it is, who must be detached when the
stream ends. -/
structure Routed where
  response : Response
  watching : Option PersonId := none

def Routed.ofReply (reply : Reply) : Routed :=
  { response := .reply reply }

def Request.action? (player now : Nat) : Request → Option Action
  | .sendMessage _ text => some (.say player text)
  | .startTyping _ => some (.typing player true)
  | .stopTyping _ => some (.typing player false)
  | .shout _ => some (.shout player now)
  | .turn _ => some (.turn player)
  | .moveTile _ tile x y => some (.move player tile x y)
  | .newPerson .. | .watchPerson .. | .keepAlive _ | .leave _ => none

namespace Registry

def watch (registry : Registry) (person : Person) (lastMessage : Nat)
    (keyHash : Option Key.Hash) : Routed × Registry :=
  match registry.lobby.room? person.room with
  | none => (.ofReply (.notFound keyHash), registry)
  | some room =>
      let (watch, room) := room.watch person.id person.player lastMessage keyHash
      ({ response := .stream person.room watch, watching := some person.id },
        { registry with lobby := registry.lobby.setRoom person.room room })

def perform (registry : Registry) (request : Request) (id : PersonId)
    (keyHash : Option Key.Hash) (now : Nat) : Routed × Registry :=
  match registry.touch id now with
  | (none, registry) => (.ofReply (.notFound keyHash), registry)
  | (some person, registry) =>
      (.ofReply (.ok keyHash),
        match request.action? person.player now with
        | some action => registry.act person.room action
        | none => registry)

def answer (registry : Registry) (request : Request) (keyHash : Option Key.Hash)
    (remote : Address) (now : Nat) (draw : Draw) : Routed × Registry :=
  match request with
  | .newPerson room name =>
      match registry.join room name remote now draw with
      | (some person, registry) => (registry.attach person.id now).2.watch person 0 keyHash
      | (none, registry) => (.ofReply (.notFound keyHash), registry)
  | .watchPerson id lastMessage =>
      let registry := (registry.attach id now).2
      match registry.person? id with
      | some person => registry.watch person lastMessage keyHash
      | none => (.ofReply (.notFound keyHash), registry)
  | .leave id =>
      match registry.remove id with
      | (true, registry) => (.ofReply (.ok keyHash), registry)
      | (false, registry) => (.ofReply (.notFound keyHash), registry)
  | .sendMessage id _ | .startTyping id | .stopTyping id | .keepAlive id | .shout id | .turn id
  | .moveTile id .. => registry.perform request id keyHash now

/-- Answers the target of a request: not found for an unknown route, a bad request
for malformed arguments. -/
def route (registry : Registry) (target : String) (keyHash : Option Key.Hash)
    (remote : Address) (now : Nat) (draw : Draw) : Routed × Registry :=
  match Request.parse target with
  | .ok request => registry.answer request keyHash remote now draw
  | .error (.unknownRoute _) => (.ofReply (.notFound keyHash), registry)
  | .error _ => (.ofReply (.badRequest keyHash), registry)

/-- The end of a response: the stream is closed after its person is detached. -/
def close (registry : Registry) (routed : Routed) (now : Nat) : Registry :=
  let registry := match routed.watching with
    | some id => registry.detach id now
    | none => registry
  match routed.response with
  | .reply _ => registry
  | .stream num watch =>
      match registry.lobby.room? num with
      | none => registry
      | some room =>
          { registry with lobby := registry.lobby.setRoom num (room.unwatch watch).2 }

def read (registry : Registry) (response : Response) (size : Nat) :
    Bytes × Response × Registry :=
  match response with
  | .reply reply =>
      let (bytes, reply) := reply.read size
      (bytes, .reply reply, registry)
  | .stream num watch =>
      match registry.lobby.room? num with
      | none => ([], response, registry)
      | some room =>
          let (bytes, room) := room.read watch size
          (bytes, response, { registry with lobby := registry.lobby.setRoom num room })

def stream? (registry : Registry) (num : RoomNum) (watch : WatchId) : Option WatchStream :=
  (registry.lobby.room? num).bind (·.stream? watch)

def isFinished (registry : Registry) : Response → Bool
  | .reply reply => reply.isFinished
  | .stream num watch => (registry.stream? num watch).all (·.isFinished)

def hasPending (registry : Registry) : Response → Bool
  | .reply reply => reply.hasPending
  | .stream num watch => (registry.lobby.room? num).any (·.hasPending watch)

end Registry

end TileRoom
