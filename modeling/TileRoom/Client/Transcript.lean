import TileRoom.Client.Event
import TileRoom.Rules
import TileRoom.Text.Numeral

/-! What a client prints about the events of a game. It remembers the names of the
visible players, to put them in front of what they say. -/

namespace TileRoom

inductive Channel where
  | output
  | info
  | debug
  | warning
deriving DecidableEq

structure PrintedLine where
  channel : Channel
  text : String
deriving DecidableEq

structure Transcript where
  names : List (Option String) := List.replicate visiblePlayers none
deriving DecidableEq

namespace Transcript

def number (value : Nat) : String :=
  String.ofList (Numeral.decimal value)

def point (x y : Int32) : String :=
  "(" ++ String.ofList (Numeral.signedDecimal x.toInt) ++ ", " ++
    String.ofList (Numeral.signedDecimal y.toInt) ++ ")"

/-- The name of a player, or a stand-in for one whose name is not remembered. -/
def speaker (transcript : Transcript) (player : Nat) : String :=
  (transcript.names.getD player none).getD ("player " ++ number player)

def line? (transcript : Transcript) : Event → Option PrintedLine
  | .header self => some ⟨.info, "You are player " ++ number self⟩
  | .name player name => some ⟨.info, "Player " ++ number player ++ " is " ++ name⟩
  | .status player status =>
      some ⟨.debug, "Player " ++ number player ++ " is now " ++ status.text⟩
  | .shouting player true => some ⟨.info, "Player " ++ number player ++ " shouts!"⟩
  | .shouting _ false => none
  | .tile num x y letter _ true =>
      some ⟨.info, "Tile " ++ number num ++ " turned up: " ++ String.ofList [letter] ++ " at " ++
        point x y⟩
  | .tile num x y _ _ false => some ⟨.debug, "Tile " ++ number num ++ " moved to " ++ point x y⟩
  | .message player text => some ⟨.output, transcript.speaker player ++ ": " ++ text⟩
  | .failure message => some ⟨.warning, message⟩
  | .running true => some ⟨.info, "Connected"⟩
  | .running false => some ⟨.info, "Disconnected"⟩
  | .phaseChanged => some ⟨.info, "Conversation state changed"⟩
  | .commandsWaiting => none

def remember (transcript : Transcript) : Event → Transcript
  | .name player name => { names := transcript.names.set player (some name) }
  | _ => transcript

def printAll (transcript : Transcript) : List Event → List PrintedLine × Transcript
  | [] => ([], transcript)
  | event :: rest =>
      let (lines, last) := (transcript.remember event).printAll rest
      ((transcript.line? event).toList ++ lines, last)

end Transcript

end TileRoom
