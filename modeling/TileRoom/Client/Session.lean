import TileRoom.Client.Connection
import TileRoom.Client.Game

/-! A client at work: a connection, the game that listens to it, and the queue of the
main thread. The events of the connection wait in the game, and one task of the main
thread applies them. A game that was closed hears nothing more. -/

namespace TileRoom

/-- The tasks of the main thread; one of them does nothing but wake it. -/
inductive MainTask where
  | applyEvents
  | wake
deriving DecidableEq

structure Session (label : Type) where
  connection : Connection
  idle : IdleQueue MainTask := .empty
  game : Option (Game label) := some {}

namespace Session

variable {label : Type}

def ofNames (room name : String) : Session label :=
  { connection := { room, name } }

/-- An event reaches the game; the first one that waits queues the task to apply
them all. -/
def offer (session : Session label) (event : Event) : Session label :=
  match session.game with
  | none => session
  | some game =>
      if event.isPublic then
        let queue := game.queue.push event
        match queue.flushToken with
        | some _ => { session with game := some { game with queue } }
        | none =>
            let (token, idle) := session.idle.push .applyEvents
            { session with
              idle
              game := some { game with queue := { queue with flushToken := some token } } }
      else session

def hear (session : Session label) (heard : Heard) : Session label :=
  heard.events.foldl offer { session with connection := heard.connection }

def beginStream (session : Session label) (key : String) : Session label :=
  session.hear (session.connection.beginStream key)

def receive (session : Session label) (data : Bytes) :
    Except ProtocolError Unit × Session label :=
  let (result, heard) := session.connection.receive data
  (result, session.hear heard)

def receiveAll (session : Session label) (pieces : List Bytes) :
    Except ProtocolError Unit × Session label :=
  let (result, heard) := session.connection.receiveAll pieces
  (result, session.hear heard)

def fail (session : Session label) (message : String) : Session label :=
  session.hear (session.connection.fail message)

def takeCommands (session : Session label) : List Request × Session label :=
  let (requests, connection) := session.connection.takeCommands
  (requests, { session with connection })

def updateGame (session : Session label) (f : Game label → Game label) : Session label :=
  { session with game := session.game.map f }

/-- Whether a command moves the clock. -/
def countsAsTurn : Command → Bool
  | .shout | .turn | .move .. => true
  | .say _ | .leave => false

def command (session : Session label) (command : Command) : Session label :=
  let session :=
    if countsAsTurn command then
      session.updateGame fun game => { game with model := game.model.tick }
    else session
  session.hear (session.connection.queue command)

def runTask (session : Session label) : MainTask → List (label × Event) × Session label
  | .wake => ([], session)
  | .applyEvents =>
      match session.game with
      | none => ([], session)
      | some game =>
          let (delivered, game) := game.flush
          (delivered, { session with game := some game })

def runTasks (session : Session label) :
    List (IdleToken × MainTask) → List (label × Event) × Session label
  | [] => ([], session)
  | (_, task) :: rest =>
      let (delivered, session) := session.runTask task
      let (more, session) := session.runTasks rest
      (delivered ++ more, session)

structure Flushed (label : Type) where
  count : Nat
  delivered : List (label × Event)
  after : Session label

def flush (session : Session label) : Flushed label :=
  let (taken, idle) := session.idle.takeAll
  let (delivered, after) := { session with idle }.runTasks taken
  ⟨taken.length, delivered, after⟩

def closeGame (session : Session label) : Session label :=
  match session.game.bind (·.queue.flushToken) with
  | some token => { session with game := none, idle := (session.idle.cancel token).2 }
  | none => { session with game := none }

end Session

end TileRoom
