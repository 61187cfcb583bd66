import TileRoom.Client.Session
import TileRoom.Client.Worker
import TileRoom.Server.Router

/-! A client's visit to a server, as everything that can happen to both of them. The client
asks for a stream again whenever it is told to; the bytes of a stream that was lost never
arrive, and the server may notice late or not at all that it was. Everyone else on the
server does as they like, but no person leaves. -/

namespace TileRoom

def Registry.shouter? (registry : Registry) (num : RoomNum) : Option Nat :=
  (registry.lobby.room? num).bind (·.conversation.shouter?)

structure Visit (label : Type) where
  registry : Registry := {}
  session : Session label
  heard : List Event := []
  /-- What answers the client's latest request, unless it was lost. -/
  answering : Option Routed := none
  inFlight : Bytes := []
  /-- The lost answers that the server still holds open. -/
  lost : List Routed := []

/-- What may happen. The bag of a new room is a full one. -/
inductive VisitStep where
  | act (room : RoomNum) (action : Action)
  | serve (request : Request) (stays : ∀ id, request ≠ .leave id) (keyHash : Option Key.Hash)
      (remote : Address) (now : Nat) (draw : Draw) (full : draw.bag.length = tileCount)
  | attach (key : String) (remote : Address) (now : Nat) (draw : Draw)
      (full : draw.bag.length = tileCount)
  | read (size : Nat)
  | deliver (count : Nat)
  | cut (reason : String)
  | close (now : Nat)
  | flush

namespace Visit

variable {label : Type}

def ofNames (room name : String) : Visit label :=
  { session := .ofNames room name }

def hear (visit : Visit label) (news : Heard) : Visit label :=
  { visit with session := visit.session.hear news, heard := visit.heard ++ news.events }

/-- The answer is lost, and all of it that has not arrived. -/
def drop (visit : Visit label) : Visit label :=
  { visit with
    answering := none
    inFlight := []
    lost := visit.lost ++ visit.answering.toList }

def fail (visit : Visit label) (reason : String) : Visit label :=
  visit.drop.hear (visit.session.connection.fail reason)

def attach (visit : Visit label) (key : String) (remote : Address) (now : Nat) (draw : Draw) :
    Visit label :=
  let target := String.ofList visit.session.connection.watchRequest.target
  let (routed, registry) := visit.registry.route target (some (Key.hash key)) remote now draw
  { visit.drop with registry, answering := some routed }.hear
    (visit.session.connection.beginStream key)

def read (visit : Visit label) (size : Nat) : Visit label :=
  match visit.answering with
  | none => visit
  | some routed =>
      let (bytes, response, registry) := visit.registry.read routed.response size
      { visit with
        registry
        answering := some { routed with response }
        inFlight := visit.inFlight ++ bytes }

/-- The next bytes arrive, `count` of them or all there are. A client that cannot read them
gives its stream up. -/
def deliver (visit : Visit label) (count : Nat) : Visit label :=
  match visit.answering with
  | none => visit
  | some _ =>
      let (result, news) := visit.session.connection.receive (visit.inFlight.take count)
      let visit := { visit with inFlight := visit.inFlight.drop count }.hear news
      match result with
      | .ok () => visit
      | .error cause => visit.fail (StreamFailure.protocol cause).message

def close (visit : Visit label) (now : Nat) : Visit label :=
  match visit.lost with
  | [] => visit
  | routed :: rest => { visit with registry := visit.registry.close routed now, lost := rest }

def step (visit : Visit label) : VisitStep → Visit label
  | .act room action => { visit with registry := visit.registry.act room action }
  | .serve request _ keyHash remote now draw _ =>
      { visit with registry := (visit.registry.answer request keyHash remote now draw).2 }
  | .attach key remote now draw _ => visit.attach key remote now draw
  | .read size => visit.read size
  | .deliver count => visit.deliver count
  | .cut reason => visit.fail reason
  | .close now => visit.close now
  | .flush => { visit with session := visit.session.flush.after }

def run (visit : Visit label) (steps : List VisitStep) : Visit label :=
  steps.foldl step visit

def conversation? (visit : Visit label) (num : RoomNum) : Option Conversation :=
  (visit.registry.lobby.room? num).map (·.conversation)

def home? (visit : Visit label) : Option Conversation :=
  visit.session.connection.id.bind fun id => (visit.registry.person? id).bind fun person =>
    visit.conversation? person.room

def isWatching (visit : Visit label) : Bool :=
  match visit.answering with
  | some ⟨.stream .., _⟩ => true
  | _ => false

/-- Whether the client's stream goes on, has nothing to say now, and has arrived. -/
def isDrained (visit : Visit label) : Bool :=
  match visit.answering with
  | some ⟨.stream num watch, _⟩ =>
      visit.inFlight.isEmpty && !visit.registry.isFinished (.stream num watch) &&
        !visit.registry.hasPending (.stream num watch)
  | _ => false

end Visit

end TileRoom
