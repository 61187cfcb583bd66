import TileRoom.Digest.Base64
import TileRoom.Digest.Sha1
import TileRoom.Text.Blank

/-! The key of a handshake. A client sends a random key; the server proves that it
read it by sending back a token made of the key's hash. -/

namespace TileRoom.Key

abbrev Hash := Bytes

def guid : String := "258EAFA5-E914-47DA-95CA-C5AB0DC85B11"

def hashBytes (key : Bytes) : Hash :=
  Sha1.digest (key ++ bytesOf guid)

/-- The hash of a key, blanks around it left out. -/
def hash (key : String) : Hash :=
  hashBytes (Utf8.encode (Blank.trim key.toList))

def acceptToken (hash : Hash) : List Char :=
  Base64.encode hash

def ofNonce (nonce : Bytes) : List Char :=
  Base64.encode nonce

end TileRoom.Key
