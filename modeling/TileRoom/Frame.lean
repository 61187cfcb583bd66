import TileRoom.Json.Reader
import TileRoom.PersonId
import TileRoom.Text.Utf8

/-! Frames of a watch stream. A frame is written as one line holding a JSON array
of a tag and a record; it is read from any JSON text of that shape, and a tag that
is not known is no error. -/

namespace TileRoom

inductive Frame where
  | header (num : Nat) (id : PersonId)
  | playerName (num : Nat) (name : String)
  | player (num : Nat) (connected typing : Bool)
  | message (person : Nat) (text : String)
  | shout (num : Nat) (shouting : Bool)
  | tile (num : Nat) (x y : Int32) (letter : Char) (lastPlayer : Option Nat)
  | finish
  | padding
  | unknown (tag : String)
deriving DecidableEq

inductive FrameError where
  | malformed
  | untagged
  | missingPayload (tag : String)
  | badId (text : String)
  | badLetter (text : String)
deriving DecidableEq

def FrameError.message : FrameError → String
  | .malformed => "malformed frame:"
  | .untagged => "frame is not a tagged array"
  | .missingPayload tag => "frame '" ++ tag ++ "' has no payload object"
  | .badId text => "invalid person id '" ++ text ++ "'"
  | .badLetter text => "invalid tile letter '" ++ text ++ "'"

namespace Frame

/-- A control character or blank below or at the space becomes one space; quotes
and backslashes take a backslash before them. -/
def escapeChar (c : Char) : List Char :=
  if c ≤ ' ' then [' ']
  else if c = '"' ∨ c = '\\' then ['\\', c]
  else [c]

def escape (text : List Char) : List Char :=
  text.flatMap escapeChar

def quoted (text : List Char) : List Char :=
  '"' :: escape text ++ ['"']

def boolText (value : Bool) : List Char :=
  if value then "true".toList else "false".toList

def optionalText : Option Nat → List Char
  | some number => Numeral.decimal number
  | none => "null".toList

def members : List (String × List Char) → List Char
  | [] => []
  | [(name, value)] => '"' :: name.toList ++ "\": ".toList ++ value
  | (name, value) :: rest =>
      '"' :: name.toList ++ "\": ".toList ++ value ++ ", ".toList ++ members rest

def line (tag : String) (fields : List (String × List Char)) : List Char :=
  "[\"".toList ++ tag.toList ++ "\", \x7b".toList ++ members fields ++ "\x7d]\r\n".toList

def tagLine (tag : List Char) : List Char :=
  '[' :: quoted tag ++ "]\r\n".toList

def render : Frame → List Char
  | .header num id =>
      line "header" [("num", Numeral.decimal num), ("id", quoted (PersonId.text id))]
  | .playerName num name =>
      line "player-name" [("num", Numeral.decimal num), ("name", quoted name.toList)]
  | .player num connected typing =>
      line "player" [("num", Numeral.decimal num), ("connected", boolText connected),
        ("typing", boolText typing)]
  | .message person text =>
      line "message" [("person", Numeral.decimal person), ("text", quoted text.toList)]
  | .shout num shouting =>
      line "shout" [("num", Numeral.decimal num), ("shouting", boolText shouting)]
  | .tile num x y letter lastPlayer =>
      line "tile" [("num", Numeral.decimal num), ("x", Numeral.signedDecimal x.toInt),
        ("y", Numeral.signedDecimal y.toInt), ("letter", quoted [letter]),
        ("last-player", optionalText lastPlayer)]
  | .finish => tagLine "end".toList
  | .padding => tagLine "padding".toList
  | .unknown tag => tagLine tag.toList

def payload (frame : Frame) : Bytes :=
  Utf8.encode frame.render

/-- The padding frames sent first, so that a reader that waits for a kilobyte of
data is not kept waiting for the frames after them. -/
def paddingTexts : List String :=
  ["[\"padding\", \"This padding is here because it seems that for some reason " ++
      "some browsers don't notify Javascript that there is a new chunk of data " ++
      "until at least 1024 bytes of the response are received. Just think of all " ++
      "those wasted bytes! It's sad.\"]\r\n",
    "[\"padding\", \"Here's a joke to pass the while this padding is being " ++
      "downloaded. Why is a giraffe never alone? Because it has a long neck. " ++
      "It's not very funny. I apologise for that. Why are you reading this anyway? " ++
      "Don't you have anything better to do?\"]\r\n",
    "[\"padding\", \"Ĉi tiuj plenumiloj estas ĉi tie ĉar ŝajne ial iuj retumiloj " ++
      "ne informas na Javascript ke nova datumoj alvenis ĝis almenaŭ 1024 bajtoj " ++
      "da la respondo reciviĝas. Pensu pri tiu malŝparo de bajtoj! Tio estas " ++
      "tristiga.\"]\r\n",
    "[\"padding\", \"Jen ŝerco por pasigi la tempon dum ĉi tiu malŝparo " ++
      "elŝutas. Kial girafo neniam solas? Ĉar ĝi havas kolegon. Ĝi estas bona " ++
      "ŝerco ĉu ne? Mi ŝatas ĝin ĉar ĝi ne havas sencon en la angla. Do jen la " ++
      "fino kaj nun povas komenci la veraj datumoj. Ĝuu!\"]\r\n"]

def recordFields? : String → Option (List String)
  | "header" => some ["num", "id"]
  | "player-name" => some ["num", "name"]
  | "player" => some ["num", "connected", "typing"]
  | "message" => some ["person", "text"]
  | "shout" => some ["num", "shouting"]
  | "tile" => some ["num", "x", "y", "letter", "last-player"]
  | _ => none

def wellFormed {α : Type} : Option α → Except FrameError α
  | some value => .ok value
  | none => .error .malformed

/-- The frame of a tag and the fields of its record. All fields are checked for
their kind before the text of an id or a letter is looked at. -/
def ofFields : String → List Json.Value → Except FrameError Frame
  | "header", [num, id] => do
      let num ← wellFormed num.word?
      let text ← wellFormed id.string?
      match Numeral.readBelow? 16 UInt64.size text.toList with
      | some value => .ok (.header num (UInt64.ofNat value))
      | none => .error (.badId text)
  | "player-name", [num, name] => do
      return .playerName (← wellFormed num.word?) (← wellFormed name.string?)
  | "player", [num, connected, typing] => do
      return .player (← wellFormed num.word?) (← wellFormed connected.bool?)
        (← wellFormed typing.bool?)
  | "message", [person, text] => do
      return .message (← wellFormed person.word?) (← wellFormed text.string?)
  | "shout", [num, shouting] => do
      return .shout (← wellFormed num.word?) (← wellFormed shouting.bool?)
  | "tile", [num, x, y, letter, lastPlayer] => do
      let num ← wellFormed num.word?
      let x ← wellFormed x.coordinate?
      let y ← wellFormed y.coordinate?
      let text ← wellFormed letter.string?
      let lastPlayer ← wellFormed lastPlayer.optionalWord?
      match text.toList with
      | [letter] => .ok (.tile num x y letter lastPlayer)
      | _ => .error (.badLetter text)
  | _, _ => .error .malformed

def ofTagged (tag : String) (items : List Json.Value) : Except FrameError Frame :=
  if tag = "end" then .ok .finish
  else if tag = "padding" then .ok .padding
  else
    match recordFields? tag, items with
    | none, _ => .ok (.unknown tag)
    | some _, [] => .error (.missingPayload tag)
    | some names, body :: _ => do ofFields tag (← wellFormed (body.fields? names))

def ofValue : Json.Value → Except FrameError Frame
  | .array (.string tag :: items) => ofTagged tag items
  | _ => .error .untagged

def decode (payload : Bytes) : Except FrameError Frame :=
  match (Utf8.decode? payload).bind Json.parse? with
  | some value => ofValue value
  | none => .error .malformed

end Frame

end TileRoom
