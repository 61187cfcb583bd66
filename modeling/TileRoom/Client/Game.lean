import TileRoom.Client.EventQueue
import TileRoom.Client.Model
import TileRoom.Signal

/-! A game as the main thread sees it: the events that wait, the model they are
applied to, and the subscribers who hear of each event once it was applied. -/

namespace TileRoom

structure Game (label : Type) where
  model : Model := {}
  queue : EventQueue := {}
  subscribers : Signal label := .empty

namespace Game

variable {label : Type}

def subscribe (game : Game label) (subscriber : label) : ListenerId × Game label :=
  let (id, subscribers) := game.subscribers.subscribe subscriber
  (id, { game with subscribers })

def unsubscribe (game : Game label) (id : ListenerId) : Bool × Game label :=
  let (found, subscribers) := game.subscribers.unsubscribe id
  (found, { game with subscribers })

def beginFlush (game : Game label) : Game label :=
  { game with queue := game.queue.beginFlush }

def applyNext (game : Game label) : List (label × Event) × Game label :=
  match game.queue.next? with
  | none => ([], game)
  | some (none, queue) => ([], { game with queue })
  | some (some event, queue) =>
      (game.subscribers.emit event, { game with queue, model := game.model.apply event })

def applyMany : Nat → Game label → List (label × Event) × Game label
  | 0, game => ([], game)
  | count + 1, game =>
      let (delivered, game) := game.applyNext
      let (more, game) := applyMany count game
      (delivered ++ more, game)

def endFlush (game : Game label) : Game label :=
  { game with queue := game.queue.endFlush }

def flush (game : Game label) : List (label × Event) × Game label :=
  let game := game.beginFlush
  let (delivered, game) := applyMany game.queue.batch.length game
  (delivered, game.endFlush)

end Game

end TileRoom
