import TileRoom.Client.Session
import TileRoom.Client.Transcript

/-! A client that is typed to. A line becomes a command, and what happens in the game
is printed. -/

namespace TileRoom

structure Console where
  session : Session Unit
  transcript : Transcript := {}

namespace Console

def ofNames (room name : String) : Console :=
  { session := (Session.ofNames room name).updateGame fun game => (game.subscribe ()).2 }

def beginStream (console : Console) (key : String) : Console :=
  { console with session := console.session.beginStream key }

def receive (console : Console) (data : Bytes) : Except ProtocolError Unit × Console :=
  let (result, session) := console.session.receive data
  (result, { console with session })

def typeLine (console : Console) (line : String) : Except CommandError Unit × Console :=
  match Command.ofLine line with
  | .error cause => (.error cause, console)
  | .ok none => (.ok (), console)
  | .ok (some command) => (.ok (), { console with session := console.session.command command })

def print (console : Console) : List PrintedLine × Console :=
  let flushed := console.session.flush
  let (lines, transcript) := console.transcript.printAll (flushed.delivered.map (·.2))
  (lines, { session := flushed.after, transcript })

def takeCommands (console : Console) : List Request × Console :=
  let (requests, session) := console.session.takeCommands
  (requests, { console with session })

end Console

end TileRoom
