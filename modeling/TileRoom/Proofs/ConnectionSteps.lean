import TileRoom.Proofs.PieceReading

/-! A connection at work. Whatever happens to it, its news comes after the news there was, and
bytes that arrive do what their frames do one after the other. -/

namespace TileRoom

/-- What may happen to a connection. A stream may be begun and lost at any time, and the worker may
stop. -/
inductive ConnectionStep where
  | begin (key : String)
  | receive (data : Bytes)
  | fail (message : String)
  | stop
  | issue (command : Command)
  | take

def ConnectionStep.issued (steps : List ConnectionStep) : List Command :=
  steps.filterMap fun
    | .issue command => some command
    | .begin _ | .receive _ | .fail _ | .stop | .take => none

namespace Connection

def step (connection : Connection) : ConnectionStep → Heard
  | .begin key => connection.beginStream key
  | .receive data => (connection.receive data).2
  | .fail message => connection.fail message
  | .stop => { connection : Heard }.setRunning false
  | .issue command => connection.queue command
  | .take => { connection := connection.takeCommands.2 }

/-- The frames that a step handles; none of a piece with one that cannot be read. -/
def handled (connection : Connection) : ConnectionStep → List Frame
  | .receive data =>
      match connection.stream with
      | none => []
      | some stream => (stream.feed data).1.toOption.getD []
  | .begin _ | .fail _ | .stop | .issue _ | .take => []

end Connection

namespace Heard

def withStream (heard : Heard) (stream : Option IncomingStream) : Heard :=
  heard.quietly ({ · with stream })

def after (heard : Heard) (step : ConnectionStep) : Heard :=
  { heard.connection.step step with events := heard.events ++ (heard.connection.step step).events }

def run (heard : Heard) (steps : List ConnectionStep) : Heard :=
  steps.foldl after heard

theorem withStream_eq (heard : Heard) (stream : Option IncomingStream) :
    heard.withStream stream =
      ({ connection := { heard.connection with stream } } : Heard).onto stream heard.events := by
  rw [withStream, quietly, onto, List.append_nil]

theorem after_begin (heard : Heard) (key : String) :
    heard.after (.begin key) = (heard.withStream (some (.ofKey key))).setRunning true := by
  let begun : Heard := { connection := { heard.connection with stream := some (.ofKey key) } }
  calc
    heard.after (.begin key) = (begun.setRunning true).onto (begun.setRunning true).connection.stream heard.events := rfl
    _ = (begun.setRunning true).onto begun.connection.stream heard.events := by rw [connection_setRunning]
    _ = (heard.withStream (some (.ofKey key))).setRunning true := by rw [withStream_eq, setRunning_onto]

theorem after_fail (heard : Heard) (message : String) :
    heard.after (.fail message) = ((heard.withStream none).announce (.failure message)).setRunning false := by
  let lost : Heard := { connection := { heard.connection with stream := none } }
  let told := lost.announce (.failure message)
  calc
    heard.after (.fail message) = (told.setRunning false).onto (told.setRunning false).connection.stream heard.events := rfl
    _ = (told.setRunning false).onto none heard.events := by rw [connection_setRunning]; rfl
    _ = ((heard.withStream none).announce (.failure message)).setRunning false := by
      rw [withStream_eq, announce_onto, setRunning_onto]

theorem after_stop (heard : Heard) : heard.after .stop = heard.setRunning false := by
  let bare : Heard := { connection := heard.connection }
  have whole : bare.onto heard.connection.stream heard.events = heard := by
    rw [onto, List.append_nil]
  calc
    heard.after .stop = (bare.setRunning false).onto (bare.setRunning false).connection.stream heard.events := rfl
    _ = (bare.setRunning false).onto heard.connection.stream heard.events := by rw [connection_setRunning]
    _ = heard.setRunning false := by rw [← setRunning_onto, whole]

theorem after_receive (heard : Heard) (data : Bytes) :
    ∃ stream, heard.after (.receive data) =
      (heard.connection.handled (.receive data)).foldl handle (heard.withStream stream) := by
  rw [after, Connection.step, Connection.receive, Connection.handled]
  cases there : heard.connection.stream with
  | none =>
    have same : { heard.connection with stream := none } = heard.connection := by rw [← there]
    refine ⟨none, ?_⟩
    rw [withStream, quietly, same]
    exact congrArg (Heard.mk heard.connection) (List.append_nil _)
  | some stream =>
    dsimp only
    cases fed : stream.feed data with
    | mk result next =>
    refine ⟨some next, ?_⟩
    rw [withStream_eq, foldl_handle_onto]
    cases result with
    | error cause => rfl
    | ok frames =>
      let read : Heard := { connection := { heard.connection with stream := some next } }
      have kept := (foldl_handle_keeps frames read).1
      change (frames.foldl handle read).onto (frames.foldl handle read).connection.stream heard.events =
        (frames.foldl handle read).onto (some next) heard.events
      rw [kept]

theorem after_issue (heard : Heard) (command : Command) :
    heard.after (.issue command) =
      (heard.quietly fun connection => { connection with pending := connection.pending ++ [command] }).announce
        .commandsWaiting :=
  rfl

theorem after_take (heard : Heard) :
    heard.after .take = heard.quietly (·.takeCommands.2) := by
  rw [after, Connection.step, List.append_nil, quietly]

end Heard

end TileRoom
