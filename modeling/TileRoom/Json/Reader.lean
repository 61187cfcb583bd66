import TileRoom.Json.Token

/-! A JSON text read token by token. The brackets still open stand in a list, the
innermost first, so nesting is bounded by its length. -/

namespace TileRoom.Json

def maxDepth : Nat := 127

/-- An open bracket with what was read inside it, the latest first. -/
inductive Level where
  | array (items : List Value)
  | object (members : List (String × Value)) (name : String)

inductive State where
  | wantValue (levels : List Level)
  | wantFirstItem (outer : List Level)
  | wantFirstName (outer : List Level)
  | wantName (members : List (String × Value)) (outer : List Level)
  | wantColon (members : List (String × Value)) (name : String) (outer : List Level)
  | afterItem (items : List Value) (outer : List Level)
  | afterMember (members : List (String × Value)) (outer : List Level)
  | done (value : Value)

/-- A value read belongs to the innermost open bracket. -/
def place (value : Value) : List Level → State
  | [] => .done value
  | .array items :: outer => .afterItem (value :: items) outer
  | .object members name :: outer => .afterMember ((name, value) :: members) outer

def begin? (levels : List Level) : Token → Option State
  | .null => some (place .null levels)
  | .bool value => some (place (.bool value) levels)
  | .number value => some (place (.number value) levels)
  | .string text => some (place (.string text) levels)
  | .beginArray => if levels.length < maxDepth then some (.wantFirstItem levels) else none
  | .beginObject => if levels.length < maxDepth then some (.wantFirstName levels) else none
  | _ => none

def step? : State → Token → Option State
  | .wantValue levels, token => begin? levels token
  | .wantFirstItem outer, .endArray => some (place (.array []) outer)
  | .wantFirstItem outer, token => begin? (.array [] :: outer) token
  | .wantFirstName outer, .endObject => some (place (.object []) outer)
  | .wantFirstName outer, .string name => some (.wantColon [] name outer)
  | .wantName members outer, .string name => some (.wantColon members name outer)
  | .wantColon members name outer, .colon => some (.wantValue (.object members name :: outer))
  | .afterItem items outer, .comma => some (.wantValue (.array items :: outer))
  | .afterItem items outer, .endArray => some (place (.array items.reverse) outer)
  | .afterMember members outer, .comma => some (.wantName members outer)
  | .afterMember members outer, .endObject => some (place (.object members.reverse) outer)
  | _, _ => none

def parse? (text : List Char) : Option Value :=
  match (tokens? text).bind fun tokens => tokens.foldlM step? (.wantValue []) with
  | some (.done value) => some value
  | _ => none

end TileRoom.Json
