import TileRoom.Address
import TileRoom.CommandLine.Options
import TileRoom.Rules

/-! The settings of a server. The address may name a port of its own; the port given
beside it counts only if it does not. -/

namespace TileRoom

structure ServerOptions where
  address : String := "0.0.0.0"
  port : UInt16 := defaultPort
  personTimeout : Nat := 300
  shoutDuration : Nat := 10
  maxConnections : Nat := 1024
deriving DecidableEq

/-- Times are in seconds. -/
structure ServerSettings where
  address : Address
  personTimeout : Nat
  shoutDuration : Nat
  maxConnections : Nat
deriving DecidableEq

inductive ServerSettingsError where
  | commandLine (cause : CommandLineStop)
  | address (cause : AddressError)
deriving DecidableEq

namespace ServerSettings

def options : List (OptionForm ServerOptions) :=
  [{ short := some 'a', long := "address"
     enter := fun value known => some { known with address := String.ofList value } },
    { short := some 'p', long := "port"
      enter := fun value known => do return { known with port := ← OptionForm.port? value } },
    { long := "person-timeout"
      enter := fun value known => do
        return { known with personTimeout := ← Numeral.readWord? value } },
    { long := "shout-duration"
      enter := fun value known => do
        return { known with shoutDuration := ← Numeral.readWord? value } },
    { long := "max-connections"
      enter := fun value known => do
        return { known with maxConnections := ← Numeral.readWord? value } }]

/-- At least one connection is always allowed. -/
def ofOptions (given : ServerOptions) : Except AddressError ServerSettings := do
  return {
    address := ← Address.parse given.port given.address
    personTimeout := given.personTimeout
    shoutDuration := given.shoutDuration
    maxConnections := max given.maxConnections 1 }

def parse (arguments : List String) : Except ServerSettingsError ServerSettings :=
  match OptionForm.read options {} arguments with
  | .error cause => .error (.commandLine cause)
  | .ok given => (ofOptions given).mapError .address

end ServerSettings

end TileRoom
