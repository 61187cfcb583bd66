import TileRoom.Frame

/-! What a client refuses to read from a server, by cause. -/

namespace TileRoom

inductive ProtocolError where
  | headTooLong
  | headNotText
  | badStatusLine (line : String)
  | sizeLineTooLong
  | sizeNotText
  | badSize (text : String)
  | chunkNotEnded
  | refused (status : Nat)
  | wrongAccept
  | notChunked
  | noStream
  | badFrame (cause : FrameError)
  | incompleteResponse
deriving DecidableEq

namespace ProtocolError

def detail : ProtocolError → String
  | .headTooLong => "response head too long"
  | .headNotText => "response head is not UTF-8"
  | .badStatusLine line => "bad status line '" ++ line ++ "'"
  | .sizeLineTooLong => "chunk size line too long"
  | .sizeNotText => "bad chunk size"
  | .badSize text => "bad chunk size '" ++ text ++ "'"
  | .chunkNotEnded => "chunk not followed by CRLF"
  | .refused status => "server answered with status " ++ String.ofList (Numeral.decimal status)
  | .wrongAccept => "Sec-WebSocket-Accept does not match the key"
  | .notChunked => "response is not chunked"
  | .noStream => "no stream attached"
  | .badFrame cause => cause.message
  | .incompleteResponse => "incomplete response"

def message (cause : ProtocolError) : String :=
  "protocol error: " ++ cause.detail

end ProtocolError

end TileRoom
