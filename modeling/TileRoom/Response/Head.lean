import TileRoom.Handshake.Key
import TileRoom.ProtocolError
import TileRoom.Text.Cut

/-! Heads of responses: how a server writes them, and what a client reads from
them. Of all headers a client looks at two only, whatever their case, and the last
of several counts. -/

namespace TileRoom

structure ResponseHead where
  status : Nat
  accept : Option String := none
  chunked : Bool := false
deriving DecidableEq

namespace ResponseHead

def commonHeaders : String :=
  "Cache-Control: no-cache\r\nConnection: close\r\nAccess-Control-Allow-Origin: *\r\n"

def acceptLine : Option Key.Hash → List Char
  | some hash => "Sec-WebSocket-Accept: ".toList ++ Key.acceptToken hash ++ "\r\n".toList
  | none => []

def render (status : String) (keyHash : Option Key.Hash) (extra : List Char) : List Char :=
  "HTTP/1.1 ".toList ++ status.toList ++ "\r\n".toList ++ commonHeaders.toList ++
    acceptLine keyHash ++ extra ++ "\r\n".toList

def maxLength : Nat := 8192

def ending : Bytes := [0x0D, 0x0A, 0x0D, 0x0A]

def lines : List Char → List (List Char)
  | [] => [[]]
  | '\r' :: '\n' :: rest => [] :: lines rest
  | c :: rest =>
      match lines rest with
      | line :: more => (c :: line) :: more
      | [] => [[c]]

/-- The status in a status line: the word after a version of HTTP/1. -/
def status? (line : List Char) : Option Nat :=
  match Cut.all ' ' line with
  | version :: code :: _ =>
      if "HTTP/1.".toList.isPrefixOf version then Numeral.readBelow? 10 UInt16.size code else none
  | _ => none

def isWord (word : List Char) (expected : String) : Bool :=
  word.map Char.toLower = expected.toList

/-- Takes up a header line. A line without a colon is skipped. -/
def takeUp (head : ResponseHead) (line : List Char) : ResponseHead :=
  match Cut.first? ':' line with
  | none => head
  | some (name, rest) =>
      let value := Blank.trim rest
      if isWord name "sec-websocket-accept" then
        { head with accept := some (String.ofList value) }
      else if isWord name "transfer-encoding" then
        { head with chunked := isWord value "chunked" }
      else head

def ofText (text : List Char) : Except ProtocolError ResponseHead :=
  let line := (lines text).headD []
  match status? line with
  | none => .error (.badStatusLine (String.ofList line))
  | some status => .ok ((lines text).tail.foldl takeUp { status })

/-- Reads the head in front of a response and tells how many bytes it has; nothing
as long as its end has not arrived. -/
def parse (data : Bytes) : Except ProtocolError (Option (ResponseHead × Nat)) :=
  match Cut.around? ending data with
  | none => if maxLength < data.length then .error .headTooLong else .ok none
  | some (before, _) =>
      match Utf8.decode? before with
      | none => .error .headNotText
      | some text => do
          let head ← ofText text
          return some (head, before.length + ending.length)

end ResponseHead

end TileRoom
