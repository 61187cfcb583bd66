import TileRoom.Request

/-! The head a client sends a request with. -/

namespace TileRoom

def Request.head (request : Request) (host key : String) : List Char :=
  "GET ".toList ++ request.target ++ " HTTP/1.1\r\nHost: ".toList ++ host.toList ++
    "\r\nSec-WebSocket-Key: ".toList ++ key.toList ++ "\r\n\r\n".toList

end TileRoom
