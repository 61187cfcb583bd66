import TileRoom.Client.Command
import TileRoom.Client.Event
import TileRoom.Client.IncomingStream
import TileRoom.IndexSet

/-! A client's side of its place in a room. The frames of its stream become events,
and commands wait until the stream has told the id to send them with. A stream may
be lost and begun again; what was learnt from the old one is kept. -/

namespace TileRoom

inductive ConnectionPhase where
  | awaitingHeader
  | inProgress
  | done
deriving DecidableEq

structure Connection where
  room : String
  name : String
  id : Option PersonId := none
  self : Option Nat := none
  nextMessage : Nat := 0
  phase : ConnectionPhase := .awaitingHeader
  running : Bool := false
  knownTiles : IndexSet 128 := .empty
  pending : List Command := []
  stream : Option IncomingStream := none
deriving DecidableEq

/-- A connection and the events on the way to it, in order. -/
structure Heard where
  connection : Connection
  events : List Event := []
deriving DecidableEq

namespace Heard

def announce (heard : Heard) (event : Event) : Heard :=
  { heard with events := heard.events ++ [event] }

def quietly (heard : Heard) (change : Connection → Connection) : Heard :=
  { heard with connection := change heard.connection }

def setPhase (heard : Heard) (phase : ConnectionPhase) : Heard :=
  if heard.connection.phase = phase then heard
  else (heard.quietly ({ · with phase })).announce .phaseChanged

def setRunning (heard : Heard) (running : Bool) : Heard :=
  if heard.connection.running = running then heard
  else (heard.quietly ({ · with running })).announce (.running running)

def handleHeader (heard : Heard) (num : Nat) (id : PersonId) : Heard :=
  let heard := heard.quietly ({ · with id := some id, self := some num })
  let heard := (heard.announce (.header num)).setPhase .inProgress
  if heard.connection.pending = [] then heard else heard.announce .commandsWaiting

/-- A tile beyond the limit is ignored. -/
def handleTile (heard : Heard) (num : Nat) (x y : Int32) (letter : Char)
    (lastPlayer : Option Nat) : Heard :=
  if num < 128 then
    let isNew := !heard.connection.knownTiles.contains num
    (heard.quietly fun connection =>
      { connection with knownTiles := connection.knownTiles.insert num }).announce
        (.tile num x y letter lastPlayer isNew)
  else heard

def handle (heard : Heard) : Frame → Heard
  | .header num id => heard.handleHeader num id
  | .playerName num name => heard.announce (.name num name)
  | .player num connected typing => heard.announce (.status num (.ofFrame connected typing))
  | .message person text =>
      (heard.quietly fun connection =>
        { connection with nextMessage := connection.nextMessage + 1 }).announce
          (.message person text)
  | .shout num shouting => heard.announce (.shouting num shouting)
  | .tile num x y letter lastPlayer => heard.handleTile num x y letter lastPlayer
  | .finish => (heard.setPhase .done).setRunning false
  | .padding | .unknown _ => heard

end Heard

namespace Connection

def isFinished (connection : Connection) : Bool :=
  connection.phase = .done

def queue (connection : Connection) (command : Command) : Heard :=
  { connection := { connection with pending := connection.pending ++ [command] }
    events := [.commandsWaiting] }

/-- The request that begins a stream: to join at first, and to go on after the last
message once the id is known. -/
def watchRequest (connection : Connection) : Request :=
  match connection.id with
  | some id => .watchPerson id connection.nextMessage
  | none => .newPerson connection.room connection.name

def beginStream (connection : Connection) (key : String) : Heard :=
  { connection := { connection with stream := some (.ofKey key) } : Heard }.setRunning true

def receive (connection : Connection) (data : Bytes) : Except ProtocolError Unit × Heard :=
  match connection.stream with
  | none => (.error .noStream, { connection })
  | some stream =>
      let (frames, stream) := stream.feed data
      let heard : Heard := { connection := { connection with stream := some stream } }
      match frames with
      | .error cause => (.error cause, heard)
      | .ok frames => (.ok (), frames.foldl Heard.handle heard)

def receiveAll (connection : Connection) : List Bytes → Except ProtocolError Unit × Heard
  | [] => (.ok (), { connection })
  | piece :: rest =>
      match connection.receive piece with
      | (.error cause, heard) => (.error cause, heard)
      | (.ok (), heard) =>
          let (result, later) := heard.connection.receiveAll rest
          (result, { later with events := heard.events ++ later.events })

/-- Takes the waiting commands as requests; none as long as the id is not known. -/
def takeCommands (connection : Connection) : List Request × Connection :=
  match connection.id with
  | none => ([], connection)
  | some id => (connection.pending.map (Command.request id), { connection with pending := [] })

def fail (connection : Connection) (message : String) : Heard :=
  let heard : Heard := { connection := { connection with stream := none } }
  (heard.announce (.failure message)).setRunning false

end Connection

end TileRoom
