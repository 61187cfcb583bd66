import TileRoom.Chunk
import TileRoom.ProtocolError
import TileRoom.Text.Blank

/-! A chunked body read in pieces of any length. What follows a semicolon in a size
line is left alone, and so are the lines between the last chunk and the empty line that
ends the body. -/

namespace TileRoom

inductive ChunkPhase where
  | size
  /-- A payload, to which `more` bytes after the next one belong. -/
  | data (more : Nat)
  | cr
  | lf
  | trailer
  | done
deriving DecidableEq

structure ChunkReader where
  phase : ChunkPhase := .size
  line : Bytes := []
  chunk : Bytes := []
deriving DecidableEq

namespace ChunkReader

def maxLine : Nat := 64

def maxDigits : Nat := 8

/-- The size in a line: a hexadecimal numeral before the first semicolon, blanks
around it left out. -/
def sizeIn (line : Bytes) : Except ProtocolError Nat :=
  match Utf8.decode? (line.takeWhile (· ≠ 0x3B)) with
  | none => .error .sizeNotText
  | some text =>
      let digits := Blank.trim text
      match Numeral.readBelow? 16 UInt64.size digits with
      | some size =>
          if digits.length ≤ maxDigits then .ok size
          else .error (.badSize (String.ofList digits))
      | none => .error (.badSize (String.ofList digits))

def withoutCr (line : Bytes) : Bytes :=
  if line.getLast? = some 0x0D then line.dropLast else line

/-- What a round of reading came to: a payload if it completed one, or an error; and
the reader after it. -/
abbrev Progress := Except ProtocolError (Option Bytes) × ChunkReader

def enter (reader : ChunkReader) (phase : ChunkPhase) : Progress :=
  (.ok none, { reader with phase })

def endSize (reader : ChunkReader) : Progress :=
  let next := { reader with line := [] }
  match sizeIn (withoutCr reader.line) with
  | .error cause => (.error cause, next)
  | .ok 0 => next.enter .trailer
  | .ok (more + 1) => next.enter (.data more)

def endTrailer (reader : ChunkReader) : Progress :=
  let next := { reader with line := [] }
  if withoutCr reader.line = [] then next.enter .done else (.ok none, next)

def endLine (reader : ChunkReader) : Progress :=
  if reader.phase = .trailer then reader.endTrailer else reader.endSize

def readLine (reader : ChunkReader) (bytes : Bytes) : Nat × Progress :=
  let run := bytes.takeWhile (· ≠ 0x0A)
  if maxLine < reader.line.length + run.length then (run.length, .error .sizeLineTooLong, reader)
  else
    let longer := { reader with line := reader.line ++ run }
    if bytes.dropWhile (· ≠ 0x0A) = [] then (run.length, .ok none, longer)
    else (run.length + 1, longer.endLine)

def readData (reader : ChunkReader) (more : Nat) (bytes : Bytes) : Nat × Progress :=
  let count := min (more + 1) bytes.length
  let longer := { reader with chunk := reader.chunk ++ bytes.take count }
  (count, longer.enter (if count = more + 1 then .cr else .data (more - count)))

def readCr (reader : ChunkReader) (byte : UInt8) : Progress :=
  if byte = 0x0D then reader.enter .lf else (.error .chunkNotEnded, reader)

def readLf (reader : ChunkReader) (byte : UInt8) : Progress :=
  if byte = 0x0A then (.ok (some reader.chunk), { reader with phase := .size, chunk := [] })
  else (.error .chunkNotEnded, reader)

/-- One round of reading: how many bytes it used, and what it came to. -/
def advance (reader : ChunkReader) (byte : UInt8) (rest : Bytes) : Nat × Progress :=
  match reader.phase with
  | .size | .trailer => reader.readLine (byte :: rest)
  | .data more => reader.readData more (byte :: rest)
  | .cr => (1, reader.readCr byte)
  | .lf => (1, reader.readLf byte)
  | .done => (rest.length + 1, .ok none, reader)

/-- Reads a piece of any length and gives the payloads completed by it, which are lost
when there is an error. -/
def feed (reader : ChunkReader) : Bytes → Except ProtocolError (List Bytes) × ChunkReader
  | [] => (.ok [], reader)
  | byte :: rest =>
      match reader.advance byte rest with
      | (_, .error cause, next) => (.error cause, next)
      | (used, .ok payload, next) =>
          let (result, last) := next.feed (rest.drop (used - 1))
          (result.map (payload.toList ++ ·), last)
termination_by bytes => bytes.length
decreasing_by
  simp only [List.length_drop, List.length_cons]
  omega

def isDone (reader : ChunkReader) : Bool :=
  reader.phase = .done

end ChunkReader

end TileRoom
