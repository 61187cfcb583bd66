/-! JSON values as far as a room reads them. An integer that fits 64 bits keeps
its value; every other number only counts as a number. Members stand in the
order written, and a name looked up means its last occurrence. -/

namespace TileRoom.Json

inductive Number where
  | integer (value : Int)
  | real
deriving DecidableEq

inductive Value where
  | null
  | bool (value : Bool)
  | number (value : Number)
  | string (text : String)
  | array (items : List Value)
  | object (members : List (String × Value))

/-- The value of the last member of this name. -/
def lastNamed? (name : String) : List (String × Value) → Option Value
  | [] => none
  | (found, value) :: rest =>
      match lastNamed? name rest with
      | some later => some later
      | none => if found = name then some value else none

/-- The values of a record's fields in the order of `names`: an array gives them
by position and must have exactly that many items, an object gives them by name,
and a name it lacks reads as null. -/
def Value.fields? (names : List String) : Value → Option (List Value)
  | .array items => if items.length = names.length then some items else none
  | .object members => some (names.map fun name => (lastNamed? name members).getD .null)
  | _ => none

def Value.bool? : Value → Option Bool
  | .bool value => some value
  | _ => none

def Value.string? : Value → Option String
  | .string text => some text
  | _ => none

def Value.word? : Value → Option Nat
  | .number (.integer (.ofNat value)) => if value < UInt64.size then some value else none
  | _ => none

def Value.coordinate? : Value → Option Int32
  | .number (.integer value) =>
      if -0x80000000 ≤ value ∧ value < 0x80000000 then some (Int32.ofInt value) else none
  | _ => none

def Value.optionalWord? : Value → Option (Option Nat)
  | .null => some none
  | value => value.word?.map some

end TileRoom.Json
