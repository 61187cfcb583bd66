import TileRoom.Handshake.HeadReader
import TileRoom.Server.Router

/-! One connection of a server. It reads the head of one request, routes it, and
writes the response; while it waits for news of a room, whatever the peer sends is
ignored, and the end of the peer's input ends it. -/

namespace TileRoom

inductive LinkEnd where
  | closed
  | rejected (cause : HandshakeError)
deriving DecidableEq

def LinkEnd.errorMessage? : LinkEnd → Option String
  | .closed => none
  | .rejected cause => some ("handshake failed: " ++ cause.message)

inductive LinkPhase where
  | head (reader : HeadReader)
  | writing (routed : Routed)
  | waiting (routed : Routed)
  | ended (outcome : LinkEnd)

structure Link where
  remote : Address
  phase : LinkPhase := .head {}

structure LinkStep where
  written : Bytes
  link : Link
  registry : Registry

namespace Link

def writeSize : Nat := 1024

def outcome? (link : Link) : Option LinkEnd :=
  match link.phase with
  | .ended outcome => some outcome
  | .head _ | .writing _ | .waiting _ => none

def idle (link : Link) (registry : Registry) : LinkStep :=
  ⟨[], link, registry⟩

def enter (link : Link) (registry : Registry) (phase : LinkPhase) : LinkStep :=
  ⟨[], { link with phase }, registry⟩

def finish (link : Link) (registry : Registry) (routed : Routed) (now : Nat) : LinkStep :=
  link.enter (registry.close routed now) (.ended .closed)

/-- Bytes arrive. Those after the head of the request have no effect. -/
def receive (link : Link) (registry : Registry) (bytes : Bytes) (now : Nat) (draw : Draw) :
    LinkStep :=
  match link.phase with
  | .head reader =>
      match reader.feed bytes with
      | (.more, reader) => link.enter registry (.head reader)
      | (.finished _, reader) =>
          let (routed, registry) :=
            registry.route reader.target reader.keyHash link.remote now draw
          link.enter registry (.writing routed)
      | (.failed cause, _) =>
          ⟨(Reply.badRequest none).data, { link with phase := .ended (.rejected cause) },
            registry⟩
  | .waiting routed => link.enter registry (.writing routed)
  | .writing _ | .ended _ => link.idle registry

def receiveEnd (link : Link) (registry : Registry) (now : Nat) : LinkStep :=
  match link.phase with
  | .head _ => link.enter registry (.ended .closed)
  | .waiting routed => link.finish registry routed now
  | .writing _ | .ended _ => link.idle registry

def isNotified (registry : Registry) : Response → Bool
  | .reply _ => false
  | .stream num watch => (registry.stream? num watch).any (·.notified)

def takeNotice (registry : Registry) : Response → Registry
  | .reply _ => registry
  | .stream num watch =>
      match registry.lobby.room? num with
      | none => registry
      | some room =>
          { registry with lobby := registry.lobby.setRoom num (room.takeNotice watch).2 }

/-- Whether a connection has nothing to do until its peer sends something or its
room changes. -/
def isIdle (link : Link) (registry : Registry) : Bool :=
  match link.phase with
  | .head _ | .ended _ => true
  | .writing _ => false
  | .waiting routed => !isNotified registry routed.response

/-- One step of a connection that is not idle: writing what there is to write, and
waking up when its room changed. -/
def advance (link : Link) (registry : Registry) (now : Nat) : LinkStep :=
  match link.phase with
  | .head _ | .ended _ => link.idle registry
  | .writing routed =>
      let (bytes, response, registry) := registry.read routed.response writeSize
      let routed := { routed with response }
      if bytes ≠ [] then ⟨bytes, { link with phase := .writing routed }, registry⟩
      else if registry.isFinished response then link.finish registry routed now
      else
        match response with
        | .reply _ => link.finish registry routed now
        | .stream .. => link.enter registry (.waiting routed)
  | .waiting routed =>
      if isNotified registry routed.response then
        link.enter (takeNotice registry routed.response) (.writing routed)
      else link.idle registry

end Link

end TileRoom
