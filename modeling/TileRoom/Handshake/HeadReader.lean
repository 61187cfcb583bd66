import TileRoom.Handshake.Key
import TileRoom.Text.Cut

/-! The head of a request, read byte by byte. Lines end at CR LF and a CR without
LF stays in its line; a header line that starts with a space continues the header
before it. Of all headers only the key is kept. -/

namespace TileRoom

inductive HandshakeError where
  | lineTooLong
  | unsupportedVersion
  | malformed
  | severalKeys
  | missingKey
deriving DecidableEq

def HandshakeError.message : HandshakeError → String
  | .lineTooLong => "Unsupported line length in HTTP request"
  | .unsupportedVersion => "Unsupported HTTP version"
  | .malformed => "Invalid HTTP request received"
  | .severalKeys => "Client sent a WebSocket header with multiple Sec-WebSocket-Key headers"
  | .missingKey => "Client sent a WebSocket header without a Sec-WebSocket-Key header"

namespace Head

def maxLine : Nat := 512

def keyHeader : Bytes := bytesOf "sec-websocket-key:"

def lower (byte : UInt8) : UInt8 :=
  if 0x41 ≤ byte ∧ byte ≤ 0x5A then byte + 0x20 else byte

def isBlank (byte : UInt8) : Bool :=
  byte = 0x20 || byte = 0x09 || byte = 0x0A || byte = 0x0C || byte = 0x0D

def isDigit (byte : UInt8) : Bool :=
  0x30 ≤ byte && byte ≤ 0x39

structure RequestLine where
  method : String
  target : String
deriving DecidableEq

def requestLine (line : Bytes) : Except HandshakeError RequestLine :=
  match Cut.first? 0x20 line with
  | none => .error .malformed
  | some (method, rest) =>
      match Cut.first? 0x20 rest with
      | none => .error .malformed
      | some (target, version) =>
          let digits := version.drop 7
          if version.take 7 = bytesOf "HTTP/1." ∧ digits ≠ [] ∧ digits.all isDigit then
            .ok ⟨String.ofList (Utf8.decodeLossy method), String.ofList (Utf8.decodeLossy target)⟩
          else .error .unsupportedVersion

def keyAfter (known : Option Bytes) (line : Bytes) : Except HandshakeError (Option Bytes) :=
  if 0x3A ∉ line then .error .malformed
  else if (line.take keyHeader.length).map lower ≠ keyHeader then .ok known
  else
    match known with
    | some _ => .error .severalKeys
    | none => .ok (some (Blank.trimWhere isBlank (line.drop keyHeader.length)))

end Head

inductive HeadPart where
  | request
  | header
deriving DecidableEq

/-- What the next byte of a head belongs to: a line, the end of a line whose CR was read,
or the line after a header. -/
inductive HeadPhase where
  | line (part : HeadPart)
  | lineEnd (part : HeadPart)
  | continuation
  | done
  | failed (cause : HandshakeError)
deriving DecidableEq

/-- How many rounds a phase may take before it uses a byte. -/
def HeadPhase.rank : HeadPhase → Nat
  | .line _ | .done | .failed _ => 0
  | .lineEnd _ | .continuation => 1

theorem HeadPhase.rank_le (phase : HeadPhase) : phase.rank ≤ 1 := by
  cases phase <;> simp [rank]

structure HeadReader where
  phase : HeadPhase := .line .request
  line : Bytes := []
  key : Option Bytes := none
  keyHash : Option Key.Hash := none
  method : String := ""
  target : String := ""
deriving DecidableEq

/-- What feeding bytes came to; a finished head tells how many of them it used. -/
inductive HeadProgress where
  | more
  | finished (used : Nat)
  | failed (cause : HandshakeError)
deriving DecidableEq

namespace HeadReader

def fail (reader : HeadReader) (cause : HandshakeError) : HeadReader :=
  { reader with phase := .failed cause, line := [] }

def enter (reader : HeadReader) (phase : HeadPhase) : HeadReader :=
  { reader with phase }

def extend (reader : HeadReader) (run : Bytes) : HeadReader :=
  if reader.line.length + run.length ≤ Head.maxLine then
    { reader with line := reader.line ++ run }
  else reader.fail .lineTooLong

def readLine (reader : HeadReader) (part : HeadPart) (bytes : Bytes) : Nat × HeadReader :=
  let run := bytes.takeWhile (· ≠ 0x0D)
  if bytes.dropWhile (· ≠ 0x0D) = [] then (run.length, reader.extend run)
  else (run.length + 1, (reader.enter (.lineEnd part)).extend run)

def endRequestLine (reader : HeadReader) : HeadReader :=
  if reader.line = [] then reader.enter (.line .request)
  else
    match Head.requestLine reader.line with
    | .ok found =>
        { reader with
          phase := .line .header, line := [], method := found.method, target := found.target }
    | .error cause => reader.fail cause

def endHeader (reader : HeadReader) : HeadReader :=
  if reader.line ≠ [] then reader.enter .continuation
  else
    match reader.key with
    | some key => { reader with phase := .done, key := none, keyHash := some (Key.hashBytes key) }
    | none => reader.fail .missingKey

def finishLine (reader : HeadReader) : HeadPart → HeadReader
  | .request => reader.endRequestLine
  | .header => reader.endHeader

/-- The byte after a CR. If it does not end the line, the CR is part of the line, and the
byte is read again. -/
def endLine (reader : HeadReader) (part : HeadPart) (byte : UInt8) : Nat × HeadReader :=
  if byte = 0x0A then (1, reader.finishLine part)
  else (0, (reader.enter (.line part)).extend [0x0D])

/-- The byte after a header line, which is read again: a space continues the header, and
any other byte belongs to the next line. -/
def continueHeader (reader : HeadReader) (byte : UInt8) : HeadReader :=
  if byte = 0x20 then reader.enter (.line .header)
  else
    match Head.keyAfter reader.key reader.line with
    | .ok key => { reader with phase := .line .header, line := [], key }
    | .error cause => reader.fail cause

/-- One round of reading: how many of the bytes it used, and the reader after it. -/
def advance (reader : HeadReader) (byte : UInt8) (rest : Bytes) : Nat × HeadReader :=
  match reader.phase with
  | .line part => reader.readLine part (byte :: rest)
  | .lineEnd part => reader.endLine part byte
  | .continuation => (0, reader.continueHeader byte)
  | .done | .failed _ => (0, reader)

def outcome? (reader : HeadReader) (used : Nat) : Option HeadProgress :=
  match reader.phase with
  | .done => some (.finished used)
  | .failed cause => some (.failed cause)
  | .line _ | .lineEnd _ | .continuation => none

theorem rank_extend_le (reader : HeadReader) (run : Bytes) :
    (reader.extend run).phase.rank ≤ reader.phase.rank := by
  unfold extend
  split
  · exact Nat.le_refl _
  · exact Nat.zero_le _

theorem rank_continueHeader (reader : HeadReader) (byte : UInt8) :
    (reader.continueHeader byte).phase.rank = 0 := by
  unfold continueHeader
  split
  · rfl
  · split <;> rfl

theorem advance_less (reader : HeadReader) (used : Nat) (byte : UInt8) (rest : Bytes)
    (going : reader.outcome? used = none) :
    2 * ((byte :: rest).drop (reader.advance byte rest).1).length +
        (reader.advance byte rest).2.phase.rank <
      2 * (byte :: rest).length + reader.phase.rank := by
  rw [List.length_drop]
  cases phase : reader.phase with
  | done | failed => simp [outcome?, phase] at going
  | continuation =>
    have round : reader.advance byte rest = (0, reader.continueHeader byte) := by
      simp only [advance, phase]
    have none := reader.rank_continueHeader byte
    have before : HeadPhase.continuation.rank = 1 := rfl
    rw [round]
    simp only
    omega
  | lineEnd part =>
    have round : reader.advance byte rest = reader.endLine part byte := by
      simp only [advance, phase]
    have before : (HeadPhase.lineEnd part).rank = 1 := rfl
    rw [round, endLine]
    split
    · have after := (reader.finishLine part).phase.rank_le
      simp only [List.length_cons]
      omega
    · have none : ((reader.enter (.line part)).extend [0x0D]).phase.rank ≤ 0 := rank_extend_le ..
      simp only
      omega
  | line part =>
    have round : reader.advance byte rest = reader.readLine part (byte :: rest) := by
      simp only [advance, phase]
    have before : (HeadPhase.line part).rank = 0 := rfl
    have some : 0 < (byte :: rest).length := Nat.succ_pos _
    rw [round, readLine]
    split
    · rename_i unended
      have all := congrArg List.length (List.takeWhile_append_dropWhile (p := (· ≠ 0x0D)) (l := byte :: rest))
      have none := reader.rank_extend_le ((byte :: rest).takeWhile (· ≠ 0x0D))
      rw [unended, List.append_nil] at all
      rw [phase] at none
      simp only
      omega
    · have after := ((reader.enter (.lineEnd part)).extend
        ((byte :: rest).takeWhile (· ≠ 0x0D))).phase.rank_le
      simp only
      omega

def feedFrom (used : Nat) (reader : HeadReader) (bytes : Bytes) : HeadProgress × HeadReader :=
  match _going : reader.outcome? used with
  | some progress => (progress, reader)
  | none =>
      match bytes with
      | [] => (.more, reader)
      | byte :: rest =>
          let round := reader.advance byte rest
          feedFrom (used + round.1) round.2 ((byte :: rest).drop round.1)
termination_by 2 * bytes.length + reader.phase.rank
decreasing_by exact reader.advance_less used byte rest _going

def feed (reader : HeadReader) (bytes : Bytes) : HeadProgress × HeadReader :=
  feedFrom 0 reader bytes

def isDone (reader : HeadReader) : Bool :=
  reader.phase = .done

end HeadReader

end TileRoom
