import TileRoom.CommandLine.Options
import TileRoom.Rules
import TileRoom.Text.Blank

/-! The settings of a client. -/

namespace TileRoom

structure ClientSettings where
  server : String := "127.0.0.1"
  port : UInt16 := defaultPort
  room : String := "default"
  name : String
  /-- Seconds to rest before a lost stream is begun again; without them the loss is
  final. -/
  reconnectDelay : Option Nat := none
deriving DecidableEq

namespace ClientSettings

/-- The name of a player who gave none: the login name, if there is one that is not
blank. -/
def defaultName (login : Option String) : String :=
  (login.filter fun name => Blank.trim name.toList ≠ []).getD "player"

def options : List (OptionForm ClientSettings) :=
  [{ short := some 's', long := "server"
     enter := fun value known => some { known with server := String.ofList value } },
    { short := some 'p', long := "port"
      enter := fun value known => do return { known with port := ← OptionForm.port? value } },
    { short := some 'r', long := "room"
      enter := fun value known => some { known with room := String.ofList value } },
    { short := some 'n', long := "name"
      enter := fun value known => some { known with name := String.ofList value } },
    { long := "reconnect-delay"
      enter := fun value known => do
        return { known with reconnectDelay := some (← Numeral.readWord? value) } }]

def parse (login : Option String) (arguments : List String) :
    Except CommandLineStop ClientSettings :=
  OptionForm.read options { name := defaultName login } arguments

end ClientSettings

end TileRoom
