import TileRoom.Client.Event
import TileRoom.Client.TileArena
import TileRoom.Rules

/-! What a client knows of its room. A logical clock counts the events applied and
the commands that touch the board, so a tile tells whether it was updated after a
command. -/

namespace TileRoom

inductive ShoutState where
  | nobody
  | self
  | other
deriving DecidableEq

structure PlayerRecord where
  name : Option String := none
  status : Status := .none
deriving DecidableEq

structure Model where
  self : Option Nat := none
  players : List PlayerRecord := List.replicate visiblePlayers {}
  shout : ShoutState := .nobody
  shouter : Option Nat := none
  tiles : TileArena := {}
  clock : Nat := 0

namespace Model

def player? (model : Model) (num : Nat) : Option PlayerRecord :=
  model.players[num]?

def tick (model : Model) : Model :=
  { model with clock := model.clock + 1 }

def updatePlayer (model : Model) (num : Nat) (f : PlayerRecord → PlayerRecord) : Model :=
  { model with players := model.players.modify num f }

/-- A player frame does not say whether the player shouts. -/
def setStatus (model : Model) (num : Nat) (status : Status) : Model :=
  model.updatePlayer num fun record =>
    { record with status := (record.status.inter .shouting).union status }

/-- A shout replaces the one before it, and only its own end ends it. -/
def setShouting (model : Model) (num : Nat) (shouting : Bool) : Model :=
  let model := model.updatePlayer num fun record =>
    { record with status := record.status.put .shouting shouting }
  if shouting then
    { model with
      shouter := some num
      shout := if model.self = some num then .self else .other }
  else if model.shouter = some num then { model with shouter := none, shout := .nobody }
  else model

def setTile (model : Model) (num : Nat) (x y : Int32) (letter : Char)
    (lastPlayer : Option Nat) : Model :=
  if num < 128 then
    let tile : SeenTile :=
      { x, y, letter
        updatedAt := model.clock
        movedBySelf := lastPlayer.isSome && lastPlayer = model.self }
    { model with tiles := ((model.tiles.insert num).update num fun _ => tile).touch num }
  else model

/-- What an event changes apart from the clock. -/
def change (model : Model) : Event → Model
  | .header num => { model with self := some num }
  | .name num name => model.updatePlayer num ({ · with name := some name })
  | .status num status => model.setStatus num status
  | .shouting num value => model.setShouting num value
  | .tile num x y letter lastPlayer _ => model.setTile num x y letter lastPlayer
  | .message .. | .failure _ | .running _ | .phaseChanged | .commandsWaiting => model

def apply (model : Model) (event : Event) : Model :=
  model.tick.change event

end Model

end TileRoom
