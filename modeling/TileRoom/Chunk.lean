import TileRoom.Frame

/-! Chunks of a response body: a line with the size in hexadecimal, the payload,
and a line break. -/

namespace TileRoom.Chunk

def lineBreak : Bytes := [13, 10]

def sizeLine (length : Nat) : Bytes :=
  Utf8.encode (Numeral.lowerHex length) ++ lineBreak

def frame (payload : Bytes) : Bytes :=
  sizeLine payload.length ++ payload ++ lineBreak

def lastChunk : Bytes :=
  sizeLine 0 ++ lineBreak

/-- The end of a watch stream: its last frame and the end of the body. -/
def farewell : Bytes :=
  frame (Frame.payload .finish) ++ lastChunk

theorem frame_length (payload : Bytes) :
    (frame payload).length = (sizeLine payload.length).length + payload.length + 2 := by
  simp [frame, lineBreak, Nat.add_assoc]

end TileRoom.Chunk
