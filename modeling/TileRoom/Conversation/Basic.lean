import TileRoom.Frame
import TileRoom.Rules

/-! The state of one game room. Each operation returns the new state and the
notices it gives out, each with the state its listeners see; operations for a
player who is not connected change nothing and give out nothing. -/

namespace TileRoom

structure Player where
  num : Nat
  name : String
  connected : Bool := true
  typing : Bool := false
deriving DecidableEq

structure Tile where
  num : Nat
  x : Int32
  y : Int32
  letter : Char
  lastPlayer : Option Nat
deriving DecidableEq

structure Message where
  player : Nat
  text : String
deriving DecidableEq

/-- A shout and when it started, in nanoseconds. -/
structure Shout where
  player : Nat
  started : Nat
deriving DecidableEq

def Player.nameFrame (player : Player) : Frame :=
  .playerName player.num player.name

def Player.statusFrame (player : Player) : Frame :=
  .player player.num player.connected player.typing

def Tile.frame (tile : Tile) : Frame :=
  .tile tile.num tile.x tile.y tile.letter tile.lastPlayer

def Message.frame (message : Message) : Frame :=
  .message message.player message.text

inductive Change where
  | started
  | messageAdded
  | tile (num : Nat)
  | shouting (player : Nat)
  | player (num : Nat)
deriving DecidableEq

/-- The bag is dealt from its head. -/
structure Conversation where
  started : Bool := false
  players : List Player := []
  messages : List Message := []
  tiles : List Tile := []
  bag : List Char
  shout : Option Shout := none
deriving DecidableEq

/-- A change and the state in which listeners learn of it. -/
structure Notice where
  change : Change
  seen : Conversation

structure Outcome (answer : Type) where
  answer : answer
  after : Conversation
  notices : List Notice := []

def Outcome.changes {answer : Type} (outcome : Outcome answer) : List Change :=
  outcome.notices.map (·.change)

namespace Conversation

def tileSize : Nat := 20

def tileColumns : Nat := 12

/-- A room whose tiles are dealt from the end of a bag. -/
def ofBag (bag : List Char) : Conversation :=
  { bag := bag.reverse }

def player? (room : Conversation) (num : Nat) : Option Player :=
  room.players[num]?

def isFull (room : Conversation) : Bool :=
  maxPlayers ≤ room.players.length

def isOpen (room : Conversation) : Bool :=
  !room.started && !room.isFull

def hasConnectedPlayers (room : Conversation) : Bool :=
  room.players.any (·.connected)

def isConnected (room : Conversation) (player : Nat) : Bool :=
  (room.player? player).any (·.connected)

def shouter? (room : Conversation) : Option Nat :=
  room.shout.map (·.player)

def unchanged {answer : Type} (room : Conversation) (value : answer) : Outcome answer :=
  { answer := value, after := room }

def changed {answer : Type} (after : Conversation) (value : answer) (change : Change) :
    Outcome answer :=
  { answer := value, after, notices := [⟨change, after⟩] }

def start (room : Conversation) : Outcome Unit :=
  if room.started then room.unchanged ()
  else changed { room with started := true } () .started

def join (room : Conversation) (name : String) : Outcome (Option Nat) :=
  if room.isOpen then
    let num := room.players.length
    let joined := { room with players := room.players ++ [{ num, name }] }
    let notice : Notice := ⟨.player num, joined⟩
    if joined.isFull then
      let begun := joined.start
      { answer := some num, after := begun.after, notices := notice :: begun.notices }
    else { answer := some num, after := joined, notices := [notice] }
  else room.unchanged none

def say (room : Conversation) (player : Nat) (text : String) : Outcome Unit :=
  if room.isConnected player then
    changed { room with messages := room.messages ++ [⟨player, text⟩] } () .messageAdded
  else room.unchanged ()

def setTyping (room : Conversation) (player : Nat) (typing : Bool) : Outcome Unit :=
  match room.player? player with
  | some found =>
      if found.connected && found.typing != typing then
        changed { room with players := room.players.set player { found with typing } } ()
          (.player player)
      else room.unchanged ()
  | none => room.unchanged ()

def endShout (room : Conversation) : Outcome Unit :=
  match room.shout with
  | some shout => changed { room with shout := none } () (.shouting shout.player)
  | none => room.unchanged ()

/-- A player who leaves stops shouting and typing. -/
def leave (room : Conversation) (player : Nat) : Outcome Unit :=
  match room.player? player with
  | some found =>
      if found.connected then
        let quiet := if room.shouter? = some player then room.endShout else room.unchanged ()
        let gone := { quiet.after with
          players := room.players.set player { found with connected := false, typing := false } }
        { answer := (), after := gone, notices := quiet.notices ++ [⟨.player player, gone⟩] }
      else room.unchanged ()
  | none => room.unchanged ()

def beginShout (room : Conversation) (player now : Nat) : Outcome Bool :=
  if room.isConnected player && room.shout.isNone then
    changed { room with shout := some ⟨player, now⟩ } true (.shouting player)
  else room.unchanged false

def expireShout (room : Conversation) (now duration : Nat) : Outcome Unit :=
  match room.shout with
  | some shout => if duration ≤ now - shout.started then room.endShout else room.unchanged ()
  | none => room.unchanged ()

def dealt (num : Nat) (letter : Char) (player : Nat) : Tile :=
  { num
    x := Int32.ofNat (num % tileColumns * tileSize)
    y := Int32.ofNat (num / tileColumns * tileSize)
    letter
    lastPlayer := some player }

def turn (room : Conversation) (player : Nat) : Outcome (Option Nat) :=
  if room.isConnected player then
    let begun := room.start
    match begun.after.bag with
    | [] => { answer := none, after := begun.after, notices := begun.notices }
    | letter :: bag =>
        let num := room.tiles.length
        let turned := { begun.after with bag, tiles := room.tiles ++ [dealt num letter player] }
        { answer := some num
          after := turned
          notices := begun.notices ++ [⟨.tile num, turned⟩] }
  else room.unchanged none

/-- Moves a tile; a move that changes neither place nor player is none. -/
def move (room : Conversation) (player tile : Nat) (x y : Int32) : Outcome Unit :=
  if room.isConnected player then
    match room.tiles[tile]? with
    | some found =>
        let moved := { found with x, y, lastPlayer := some player }
        if moved = found then room.unchanged ()
        else changed { room with tiles := room.tiles.set tile moved } () (.tile tile)
    | none => room.unchanged ()
  else room.unchanged ()

end Conversation

end TileRoom
