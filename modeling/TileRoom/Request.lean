import TileRoom.PersonId
import TileRoom.Text.Form

/-! Requests. A target names a route and gives its arguments by position, each
form-encoded; reading takes the arguments in order, so the first fault decides
the error. -/

namespace TileRoom

inductive Request where
  | newPerson (room name : String)
  | watchPerson (id : PersonId) (lastMessage : Nat)
  | sendMessage (id : PersonId) (text : String)
  | startTyping (id : PersonId)
  | stopTyping (id : PersonId)
  | keepAlive (id : PersonId)
  | leave (id : PersonId)
  | shout (id : PersonId)
  | turn (id : PersonId)
  | moveTile (id : PersonId) (tile : Nat) (x y : Int32)
deriving DecidableEq

inductive Route where
  | newPerson
  | watchPerson
  | sendMessage
  | startTyping
  | stopTyping
  | keepAlive
  | leave
  | shout
  | turn
  | moveTile
deriving DecidableEq

namespace Route

def name : Route → String
  | .newPerson => "new_person"
  | .watchPerson => "watch_person"
  | .sendMessage => "send_message"
  | .startTyping => "start_typing"
  | .stopTyping => "stop_typing"
  | .keepAlive => "keep_alive"
  | .leave => "leave"
  | .shout => "shout"
  | .turn => "turn"
  | .moveTile => "move_tile"

def all : List Route :=
  [.newPerson, .watchPerson, .sendMessage, .startTyping, .stopTyping, .keepAlive, .leave,
    .shout, .turn, .moveTile]

def ofName? (name : String) : Option Route :=
  all.find? (·.name = name)

theorem ofName?_name (route : Route) : ofName? route.name = some route := by
  cases route <;> decide

end Route

inductive ArgumentKind where
  | personId
  | messageNumber
  | tileNumber
  | xCoordinate
  | yCoordinate
deriving DecidableEq

def ArgumentKind.name : ArgumentKind → String
  | .personId => "person id"
  | .messageNumber => "message number"
  | .tileNumber => "tile number"
  | .xCoordinate => "x coordinate"
  | .yCoordinate => "y coordinate"

inductive RequestError where
  | unknownRoute (text : String)
  | missingArgument (route : Route)
  | tooManyArguments (route : Route)
  | invalidArgument (kind : ArgumentKind) (value : String)
deriving DecidableEq

def RequestError.message : RequestError → String
  | .unknownRoute text => "unknown route '" ++ text ++ "'"
  | .missingArgument route => "missing argument for '" ++ route.name ++ "'"
  | .tooManyArguments route => "too many arguments for '" ++ route.name ++ "'"
  | .invalidArgument kind value => "invalid " ++ kind.name ++ " '" ++ value ++ "'"

namespace Request

def route : Request → Route
  | .newPerson .. => .newPerson
  | .watchPerson .. => .watchPerson
  | .sendMessage .. => .sendMessage
  | .startTyping _ => .startTyping
  | .stopTyping _ => .stopTyping
  | .keepAlive _ => .keepAlive
  | .leave _ => .leave
  | .shout _ => .shout
  | .turn _ => .turn
  | .moveTile .. => .moveTile

def person? : Request → Option PersonId
  | .newPerson .. => none
  | .watchPerson id _ | .sendMessage id _ | .startTyping id | .stopTyping id | .keepAlive id
  | .leave id | .shout id | .turn id | .moveTile id .. => some id

def arguments : Request → List (List Char)
  | .newPerson room name => [room.toList, name.toList]
  | .watchPerson id lastMessage => [PersonId.text id, Numeral.decimal lastMessage]
  | .sendMessage id text => [PersonId.text id, text.toList]
  | .startTyping id | .stopTyping id | .keepAlive id | .leave id | .shout id | .turn id =>
      [PersonId.text id]
  | .moveTile id tile x y =>
      [PersonId.text id, Numeral.decimal tile, Numeral.signedDecimal x.toInt,
        Numeral.signedDecimal y.toInt]

def target (request : Request) : List Char :=
  '/' :: request.route.name.toList ++ '?' ::
    List.intercalate ['&'] (request.arguments.map Form.encode)

/-- Reading the arguments of a route, the next one first. -/
abbrev Reading := StateT (List (List Char)) (Except RequestError)

def next (route : Route) : Reading (List Char) := fun arguments =>
  match arguments with
  | argument :: rest => .ok (argument, rest)
  | [] => .error (.missingArgument route)

def accept {α : Type} (kind : ArgumentKind) (text : List Char) : Option α → Reading α
  | some value => pure value
  | none => throw (.invalidArgument kind (String.ofList text))

def nextText (route : Route) : Reading String := do
  return String.ofList (← next route)

def nextId (route : Route) : Reading PersonId := do
  let text ← next route
  accept .personId text (PersonId.parse? text)

def nextNumber (route : Route) (kind : ArgumentKind) : Reading Nat := do
  let text ← next route
  accept kind text (Numeral.readWord? text)

def nextCoordinate (route : Route) (kind : ArgumentKind) : Reading Int32 := do
  let text ← next route
  accept kind text (Numeral.readCoordinate? text)

def read (route : Route) : Reading Request :=
  match route with
  | .newPerson => return .newPerson (← nextText route) (← nextText route)
  | .watchPerson => return .watchPerson (← nextId route) (← nextNumber route .messageNumber)
  | .sendMessage => return .sendMessage (← nextId route) (← nextText route)
  | .startTyping => return .startTyping (← nextId route)
  | .stopTyping => return .stopTyping (← nextId route)
  | .keepAlive => return .keepAlive (← nextId route)
  | .leave => return .leave (← nextId route)
  | .shout => return .shout (← nextId route)
  | .turn => return .turn (← nextId route)
  | .moveTile =>
      return .moveTile (← nextId route) (← nextNumber route .tileNumber)
        (← nextCoordinate route .xCoordinate) (← nextCoordinate route .yCoordinate)

/-- A pair of a query as one argument: an equals sign in it split it, and is put
back unless nothing follows it. -/
def argument (name value : List Char) : List Char :=
  if value.isEmpty then name else name ++ '=' :: value

def splitQuery (query : List Char) : List (List Char) :=
  (Form.pairs (Utf8.encode query)).map fun (name, value) => argument name value

/-- The route and the query of a target; one slash may stand in front. -/
def splitTarget (target : List Char) : List Char × List Char :=
  let target := match target with
    | '/' :: rest => rest
    | target => target
  (Cut.first? '?' target).getD (target, [])

def parse (target : String) : Except RequestError Request :=
  let (name, query) := splitTarget target.toList
  match Route.ofName? (String.ofList name) with
  | none => .error (.unknownRoute (String.ofList name))
  | some route => do
      let (request, rest) ← (read route).run (splitQuery query)
      if rest.isEmpty then .ok request else .error (.tooManyArguments route)

end Request

end TileRoom
