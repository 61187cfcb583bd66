import TileRoom.Client.Transcript
import TileRoom.Client.Worker
import TileRoom.CommandLine.ClientSettings
import TileRoom.CommandLine.ServerSettings
import TileRoom.Server.Network

/-! The command line. `server` answers one peer on standard input and output, as under
a program that accepts connections for it; `client` watches its room over the same two
streams and prints on the error stream. -/

namespace TileRoom.Main

def randomBytes (count : Nat) : IO Bytes :=
  (List.range count).mapM fun _ => UInt8.ofNat <$> IO.rand 0 255

def randomDraw : IO Draw := do
  let id := (← randomBytes 8).foldl (fun id byte => id * 256 + byte.toUInt64) 0
  let picks ← (List.range tileCount).mapM fun _ => IO.rand 0 0xFFFFFF
  return ⟨[id], shuffled picks fullBag⟩

def second : Nat := 1000000000

partial def settle (network : Network) (now : Nat) : Network :=
  match network.step? now with
  | some next => settle next now
  | none => network

partial def serve (settings : ServerSettings) (network : Network) : IO Unit := do
  let (written, network) := (settle network (← IO.monoNanosNow)).takeWritten
  let output ← IO.getStdout
  output.write ⟨written.flatten.toArray⟩
  output.flush
  if network.peers.all (·.link.outcome?.isSome) then return
  let bytes := (← (← IO.getStdin).read 1024).toList
  let now ← IO.monoNanosNow
  let network := { network with
    registry := network.registry.checkTimeouts (settings.personTimeout * second)
      (settings.shoutDuration * second) now }
  if bytes.isEmpty then serve settings (network.receiveEnd 0 now)
  else serve settings (network.receive 0 bytes now (← randomDraw))

def follow (transcript : Transcript) (step : WorkerStep) : IO Transcript := do
  let (lines, transcript) := transcript.printAll (step.events.filter (·.isPublic))
  lines.forM fun line => IO.eprintln line.text
  let output ← IO.getStdout
  output.write ⟨(Utf8.encode step.written).toArray⟩
  output.flush
  return transcript

partial def watch (worker : Worker) (transcript : Transcript) : IO Unit := do
  if worker.phase = .stopped then return
  let bytes := (← (← IO.getStdin).read 4096).toList
  let step := worker.step (if bytes.isEmpty then .closed else .arrived bytes)
  watch step.worker (← follow transcript step)

def runServer (arguments : List String) : IO UInt32 := do
  match ServerSettings.parse arguments with
  | .error (.address cause) =>
      IO.eprintln cause.message
      return 1
  | .error (.commandLine _) =>
      IO.eprintln "options: -a ADDRESS -p PORT --person-timeout SECONDS --shout-duration SECONDS"
      return 2
  | .ok settings =>
      serve settings (Network.accept {} settings.address)
      return 0

def runClient (arguments : List String) : IO UInt32 := do
  match ClientSettings.parse (← IO.getEnv "USER") arguments with
  | .error _ =>
      IO.eprintln "options: -s SERVER -p PORT -r ROOM -n NAME"
      return 2
  | .ok settings =>
      let key := String.ofList (Key.ofNonce (← randomBytes 16))
      let worker : Worker :=
        { host := settings.server
          reconnects := false
          connection := { room := settings.room, name := settings.name } }
      let begun := worker.step (.start key)
      let transcript ← follow {} begun
      let dialed := begun.worker.step .dialed
      watch dialed.worker (← follow transcript dialed)
      return 0

end TileRoom.Main

def main (arguments : List String) : IO UInt32 :=
  match arguments with
  | "server" :: rest => TileRoom.Main.runServer rest
  | "client" :: rest => TileRoom.Main.runClient rest
  | _ => do
      IO.eprintln "usage: tileroom (server | client) OPTIONS"
      return 2
