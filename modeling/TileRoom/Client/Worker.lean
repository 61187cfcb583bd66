import TileRoom.Client.Connection
import TileRoom.Request.Head

/-! The network side of a client: it keeps a stream of its room open, begins it again
after a failure if it is told to, and hands the commands on to be sent one after the
other. Each thing that happens on the network is one step. -/

namespace TileRoom

inductive StreamFailure where
  | transport (text : String)
  | protocol (cause : ProtocolError)
  | unresolved (name : String)
deriving DecidableEq

def StreamFailure.message : StreamFailure → String
  | .transport text => "I/O error: " ++ text
  | .protocol cause => cause.message
  | .unresolved name => "could not resolve " ++ name

inductive WorkerPhase where
  | idle
  | dialing (request : Request) (key : String)
  | watching
  | resting
  | stopped
deriving DecidableEq

structure Worker where
  host : String
  reconnects : Bool
  connection : Connection
  phase : WorkerPhase := .idle
  outbox : List Request := []
deriving DecidableEq

/-- What happens to a worker. A fresh key comes with each new stream. -/
inductive WorkerInput where
  | start (key : String)
  | dialed
  | failed (failure : StreamFailure)
  | arrived (data : Bytes)
  | closed
  | woken
  | rested (key : String)
  | shutdown
deriving DecidableEq

structure WorkerStep where
  worker : Worker
  events : List Event := []
  written : List Char := []

namespace Worker

def forward (worker : Worker) : Worker :=
  let (requests, connection) := worker.connection.takeCommands
  { worker with connection, outbox := worker.outbox ++ requests }

def nextCommand? (worker : Worker) : Option (Request × Worker) :=
  match worker.outbox with
  | [] => none
  | request :: outbox => some (request, { worker with outbox })

def checkReply (reply : Bytes) : Except ProtocolError Unit :=
  match ResponseHead.parse reply with
  | .error cause => .error cause
  | .ok none => .error .incompleteResponse
  | .ok (some (head, _)) => if head.status = 200 then .ok () else .error (.refused head.status)

def unmoved (worker : Worker) : WorkerStep :=
  { worker }

def begin (worker : Worker) (key : String) : WorkerStep :=
  let heard := worker.connection.beginStream key
  { worker := { worker with
      connection := heard.connection
      phase := .dialing worker.connection.watchRequest key }
    events := heard.events }

def stop (worker : Worker) (events : List Event) : WorkerStep :=
  let worker := worker.forward
  let heard := { connection := worker.connection, events : Heard }.setRunning false
  { worker := { worker with connection := heard.connection, phase := .stopped }
    events := heard.events }

/-- The stream is lost: it is begun again after a rest, or the worker stops. -/
def lose (worker : Worker) (failure : StreamFailure) : WorkerStep :=
  let heard := worker.connection.fail failure.message
  let worker := { worker with connection := heard.connection }
  if worker.reconnects then { worker := { worker with phase := .resting }, events := heard.events }
  else worker.stop heard.events

def receive (worker : Worker) (data : Bytes) : WorkerStep :=
  let (result, heard) := worker.connection.receive data
  let worker := { worker with connection := heard.connection }
  match result with
  | .error cause =>
      let step := worker.lose (.protocol cause)
      { step with events := heard.events ++ step.events }
  | .ok () =>
      if worker.connection.isFinished then worker.stop heard.events
      else { worker := worker.forward, events := heard.events }

def step (worker : Worker) (input : WorkerInput) : WorkerStep :=
  match worker.phase, input with
  | .stopped, _ => worker.unmoved
  | .idle, .start key | .resting, .rested key => worker.begin key
  | .idle, _ => worker.unmoved
  | _, .shutdown => worker.stop []
  | .dialing request key, .dialed =>
      { worker := { worker with phase := .watching }.forward
        written := request.head worker.host key }
  | .dialing .., .failed failure | .watching, .failed failure => worker.lose failure
  | .watching, .arrived data => worker.receive data
  | .watching, .closed =>
      if worker.connection.isFinished then worker.stop []
      else worker.lose (.transport "server closed the stream")
  | .watching, .woken => worker.forward.unmoved
  | _, _ => worker.unmoved

end Worker

end TileRoom
