import TileRoom.Response.Head
import TileRoom.Response.OutBuf

/-! Replies whose bytes are all known from the start. -/

namespace TileRoom

structure Reply where
  data : Bytes
  pos : Nat := 0

namespace Reply

def ofBody (status : String) (keyHash : Option Key.Hash) (body : String) : Reply :=
  let extra := "Content-Type: text/plain; charset=UTF-8\r\nContent-Length: ".toList ++
    Numeral.decimal (bytesOf body).length ++ "\r\n".toList
  { data := Utf8.encode (ResponseHead.render status keyHash extra) ++ bytesOf body }

def ok (keyHash : Option Key.Hash) : Reply :=
  ofBody "200 OK" keyHash "ok\n"

def badRequest (keyHash : Option Key.Hash) : Reply :=
  ofBody "400 Bad Request" keyHash "bad request\n"

def notFound (keyHash : Option Key.Hash) : Reply :=
  ofBody "404 Not Found" keyHash "not found\n"

def read (reply : Reply) (size : Nat) : Bytes × Reply :=
  let written := (OutBuf.empty size).write reply.pos reply.data
  (written.out.bytes, { reply with pos := written.pos })

def isFinished (reply : Reply) : Bool :=
  reply.data.length ≤ reply.pos

def hasPending (reply : Reply) : Bool :=
  !reply.isFinished

end Reply

end TileRoom
