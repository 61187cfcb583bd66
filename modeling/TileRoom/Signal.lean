/-! Signals. A signal holds its listeners in the order they subscribed, each under
an id of its own that is never given out again; what a listener is, the label
says. Emitting a value delivers it to every listener in that order. -/

namespace TileRoom

abbrev ListenerId := Nat

structure Signal (label : Type) where
  nextId : ListenerId := 1
  listeners : List (ListenerId × label) := []

namespace Signal

variable {label : Type}

def empty : Signal label := {}

def subscribe (signal : Signal label) (listener : label) : ListenerId × Signal label :=
  (signal.nextId,
    { nextId := signal.nextId + 1
      listeners := signal.listeners ++ [(signal.nextId, listener)] })

def isSubscribed (signal : Signal label) (id : ListenerId) : Bool :=
  signal.listeners.any (·.1 = id)

def unsubscribe (signal : Signal label) (id : ListenerId) : Bool × Signal label :=
  (signal.isSubscribed id,
    { signal with listeners := signal.listeners.eraseP (·.1 = id) })

def emit {value : Type} (signal : Signal label) (sent : value) : List (label × value) :=
  signal.listeners.map fun (_, listener) => (listener, sent)

def size (signal : Signal label) : Nat :=
  signal.listeners.length

def isEmpty (signal : Signal label) : Bool :=
  signal.listeners.isEmpty

def describe (signal : Signal label) : String :=
  "Signal \x7b listeners: " ++ toString signal.size ++ " \x7d"

end Signal

end TileRoom
