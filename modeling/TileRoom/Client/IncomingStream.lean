import TileRoom.Chunk.Reader
import TileRoom.Response.Head

/-! The stream a client reads: a response head that answers the client's key, and a
chunked body with one frame in each chunk. -/

namespace TileRoom

/-- How far a stream was read; the bytes of a head are kept until all of it has
arrived. -/
inductive StreamStage where
  | head (bytes : Bytes)
  | body (reader : ChunkReader)
deriving DecidableEq

structure IncomingStream where
  token : String
  stage : StreamStage := .head []
deriving DecidableEq

namespace IncomingStream

def ofKey (key : String) : IncomingStream :=
  { token := String.ofList (Key.acceptToken (Key.hash key)) }

def check (stream : IncomingStream) (head : ResponseHead) : Except ProtocolError Unit :=
  if head.status ≠ 200 then .error (.refused head.status)
  else if head.accept ≠ some stream.token then .error .wrongAccept
  else if head.chunked then .ok ()
  else .error .notChunked

def decodeAll (payloads : List Bytes) : Except ProtocolError (List Frame) :=
  payloads.mapM fun payload => (Frame.decode payload).mapError .badFrame

def feedBody (stream : IncomingStream) (reader : ChunkReader) (data : Bytes) :
    Except ProtocolError (List Frame) × IncomingStream :=
  let (payloads, reader) := reader.feed data
  (payloads.bind decodeAll, { stream with stage := .body reader })

/-- Reads on and gives the frames completed; after an error none of them. -/
def feed (stream : IncomingStream) (data : Bytes) :
    Except ProtocolError (List Frame) × IncomingStream :=
  match stream.stage with
  | .body reader => stream.feedBody reader data
  | .head before =>
      let known := before ++ data
      let waiting := { stream with stage := .head known }
      match ResponseHead.parse known with
      | .error cause => (.error cause, waiting)
      | .ok none => (.ok [], waiting)
      | .ok (some (head, used)) =>
          match stream.check head with
          | .error cause => (.error cause, waiting)
          | .ok () => stream.feedBody {} (known.drop used)

end IncomingStream

end TileRoom
