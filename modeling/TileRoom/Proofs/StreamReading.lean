import TileRoom.Client.IncomingStream
import TileRoom.Proofs.ChunkReading
import TileRoom.Proofs.FrameReading
import TileRoom.Proofs.HeadReading
import TileRoom.Proofs.Telling

/-! What a client hears of a watch stream. Pieces are read like the text they are cut
from, and as much of a stream as has arrived gives the first of the frames that were
written. -/

namespace TileRoom.IncomingStream

def hear (stream : IncomingStream) (data : Bytes) :
    Except ProtocolError (List Frame × IncomingStream) :=
  match stream.feed data with
  | (.ok frames, next) => .ok (frames, next)
  | (.error cause, _) => .error cause

theorem hear_of_feed {stream next : IncomingStream} {data : Bytes} {frames : List Frame}
    (fed : stream.feed data = (.ok frames, next)) : stream.hear data = .ok (frames, next) := by
  rw [hear, fed]

def hearBody (stream : IncomingStream) (reader : ChunkReader) (data : Bytes) :
    Except ProtocolError (List Frame × IncomingStream) :=
  (reader.scan data).bind fun found =>
    (decodeAll found.1).map fun frames => (frames, { stream with stage := .body found.2 })

theorem feedBody_hear (stream : IncomingStream) (reader : ChunkReader) (data : Bytes) :
    (match stream.feedBody reader data with
      | (.ok frames, next) => .ok (frames, next)
      | (.error cause, _) => .error cause) = stream.hearBody reader data := by
  obtain ⟨read, state⟩ := reader.feed_scan data
  unfold feedBody hearBody
  cases scanned : reader.scan data with
  | error cause =>
    rw [scanned] at read
    simp only [read, Except.map, Except.bind]
  | ok found =>
    rw [scanned] at read
    simp only [read, Except.map, Except.bind, state found.1 found.2 scanned]
    cases decodeAll found.1 <;> rfl

theorem hear_of_body {stream : IncomingStream} {reader : ChunkReader} (stage : stream.stage = .body reader)
    (data : Bytes) : stream.hear data = stream.hearBody reader data := by
  have body := feedBody_hear stream reader data
  unfold hear feed
  rw [stage]
  exact body

theorem hearBody_ok {stream : IncomingStream} {reader next : ChunkReader} {data : Bytes}
    {payloads : List Bytes} {frames : List Frame} (scanned : reader.scan data = .ok (payloads, next))
    (decoded : decodeAll payloads = .ok frames) :
    stream.hearBody reader data = .ok (frames, { stream with stage := .body next }) := by
  simp only [hearBody, scanned, Except.bind, decoded, Except.map]

theorem hearBody_nil (stream : IncomingStream) (reader : ChunkReader) :
    stream.hearBody reader [] = .ok ([], { stream with stage := .body reader }) :=
  hearBody_ok reader.scan_nil rfl

theorem decodeAll_append (early late : List Bytes) :
    decodeAll (early ++ late) =
      (decodeAll early).bind fun first => (decodeAll late).map fun second => first ++ second := by
  rw [decodeAll, List.mapM_append, ← decodeAll, ← decodeAll]
  cases decodeAll early with
  | error cause => rfl
  | ok first =>
    cases decodeAll late <;> rfl

theorem hearBody_append {stream middle : IncomingStream} {reader : ChunkReader} {first : Bytes}
    {early : List Frame} (heard : stream.hearBody reader first = .ok (early, middle)) (second : Bytes) :
    stream.hearBody reader (first ++ second) =
      (middle.hear second).map fun late => (early ++ late.1, late.2) := by
  unfold hearBody at heard ⊢
  cases scanned : reader.scan first with
  | error cause => rw [scanned] at heard; cases heard
  | ok found =>
    rw [scanned] at heard
    cases decoded : decodeAll found.1 with
    | error cause => simp [Except.bind, Except.map, decoded] at heard
    | ok frames =>
      simp only [Except.bind, Except.map, decoded, Except.ok.injEq, Prod.mk.injEq] at heard
      obtain ⟨rfl, rfl⟩ := heard
      have stage : ({ stream with stage := .body found.2 } : IncomingStream).stage = .body found.2 := rfl
      rw [hear_of_body stage, hearBody, ChunkReader.scan_append_ok scanned]
      cases rest : found.2.scan second with
      | error cause => rfl
      | ok more =>
        simp only [Except.map, decodeAll_append, decoded, Except.bind]
        cases decodeAll more.1 <;> rfl

theorem hear_head {stream : IncomingStream} (before : Bytes) (stage : stream.stage = .head before)
    (data : Bytes) :
    stream.hear data =
      match ResponseHead.parse (before ++ data) with
      | .error cause => .error cause
      | .ok none => .ok ([], { stream with stage := .head (before ++ data) })
      | .ok (some (head, used)) =>
          (stream.check head).bind fun _ => stream.hearBody {} ((before ++ data).drop used) := by
  unfold hear feed
  rw [stage]
  dsimp only
  cases ResponseHead.parse (before ++ data) with
  | error cause => rfl
  | ok parsed =>
    cases parsed with
    | none => rfl
    | some found =>
      obtain ⟨head, used⟩ := found
      simp only
      cases stream.check head with
      | error cause => rfl
      | ok granted => exact feedBody_hear stream {} _

theorem hear_append {stream middle : IncomingStream} {first : Bytes} {early : List Frame}
    (heard : stream.hear first = .ok (early, middle)) (second : Bytes) :
    stream.hear (first ++ second) =
      (middle.hear second).map fun late => (early ++ late.1, late.2) := by
  cases stage : stream.stage with
  | body reader =>
    rw [hear_of_body stage] at heard ⊢
    exact hearBody_append heard second
  | head before =>
    rw [hear_head _ stage] at heard ⊢
    cases parsed : ResponseHead.parse (before ++ first) with
    | error cause => rw [parsed] at heard; cases heard
    | ok found =>
      rw [parsed] at heard
      cases found with
      | none =>
        obtain ⟨rfl, rfl⟩ := Prod.mk.inj (Except.ok.inj heard)
        have unchanged (result : Except ProtocolError (List Frame × IncomingStream)) :
            result.map (fun late => ([] ++ late.1, late.2)) = result := by
          cases result <;> rfl
        have next : ({ stream with stage := .head (before ++ first) } : IncomingStream).stage =
          .head (before ++ first) := rfl
        rw [unchanged, hear_head _ next,
          List.append_assoc]
        rfl
      | some found =>
        obtain ⟨head, used⟩ := found
        obtain ⟨still, rest⟩ := ResponseHead.parse_append parsed second
        rw [List.append_assoc] at still rest
        rw [still]
        simp only at heard ⊢
        cases checked : stream.check head with
        | error cause => rw [checked] at heard; cases heard
        | ok granted =>
          rw [checked] at heard
          simp only [Except.bind] at heard ⊢
          rw [rest]
          exact hearBody_append heard second

/-- What a client hears in order when all of a stream arrives: the padding, then the
frames. -/
def script (frames : List Frame) : List (Bytes × Frame) :=
  (Frame.paddingTexts.map fun text => (bytesOf text, .padding)) ++
    frames.map fun frame => (frame.payload, frame.received)

theorem opening_script (hash : Key.Hash) (frames : List Frame) :
    WatchStream.opening (some hash) ++ frames.flatMap Frame.chunk =
      ResponseHead.bytesOfLines (ResponseHead.watchLines hash) ++
        ((script frames).map (·.1)).flatMap Chunk.frame := by
  rw [ResponseHead.opening_eq, List.append_assoc, script, List.map_append, List.flatMap_append,
    List.map_map, List.map_map, List.flatMap_map, List.flatMap_map]
  rfl

theorem script_sound (frames : List Frame) (sized : ∀ frame ∈ frames, frame.WordSized) :
    ∀ entry ∈ script frames, entry.1 ≠ [] ∧ Frame.decode entry.1 = .ok entry.2 := by
  intro entry member
  rcases List.mem_append.1 member with padding | told
  · obtain ⟨text, known, rfl⟩ := List.mem_map.1 padding
    obtain ⟨read, nonempty, _⟩ := Frame.decode_padding text known
    exact ⟨List.length_pos_iff.1 nonempty, read⟩
  · obtain ⟨frame, known, rfl⟩ := List.mem_map.1 told
    exact ⟨List.length_pos_iff.1 (Frame.payload_nonempty frame), Frame.decode_payload frame (sized frame known)⟩

theorem decodeAll_script (entries : List (Bytes × Frame))
    (sound : ∀ entry ∈ entries, Frame.decode entry.1 = .ok entry.2) :
    decodeAll (entries.map (·.1)) = .ok (entries.map (·.2)) := by
  induction entries with
  | nil => rfl
  | cons entry rest ih =>
    obtain ⟨first, others⟩ := List.forall_mem_cons.1 sound
    have later := ih others
    rw [decodeAll] at later ⊢
    rw [List.map_cons, List.mapM_cons, first, later]
    rfl

theorem map_prefix {α β : Type} (f : α → β) {heard : List β} {entries : List α}
    (part : heard <+: entries.map f) : heard = (entries.take heard.length).map f := by
  rw [List.map_take]
  exact List.prefix_iff_eq_take.1 part

theorem check_granted (key : String) :
    (ofKey key).check ⟨200, some (String.ofList (Key.acceptToken (Key.hash key))), true⟩ = .ok () := by
  simp [check, ofKey]

theorem hear_body (key : String) (body : Bytes) :
    (ofKey key).hear (ResponseHead.bytesOfLines (ResponseHead.watchLines (Key.hash key)) ++ body) =
      (ofKey key).hearBody {} body := by
  rw [hear_head [] rfl, List.nil_append, ResponseHead.parse_watchLines]
  simp only [check_granted, Except.bind, List.drop_left]

theorem hear_part {key : String} {frames got : List Frame} {tail data : Bytes} {last : ChunkReader}
    {next : IncomingStream} (sized : ∀ frame ∈ frames, frame.WordSized)
    (ending : ({} : ChunkReader).scan tail = .ok ([], last))
    (part : data <+: WatchStream.opening (some (Key.hash key)) ++ frames.flatMap Frame.chunk ++ tail)
    (heard : (ofKey key).hear data = .ok (got, next)) : got <+: (script frames).map (·.2) := by
  have sound := script_sound frames sized
  rw [opening_script, List.append_assoc] at part
  rcases List.prefix_or_prefix_of_prefix part (List.prefix_append _ _) with inside | beyond
  · by_cases whole : data = ResponseHead.bytesOfLines (ResponseHead.watchLines (Key.hash key))
    · rw [whole, ← List.append_nil (ResponseHead.bytesOfLines _), hear_body, hearBody_nil] at heard
      obtain ⟨rfl, rfl⟩ := Prod.mk.inj (Except.ok.inj heard)
      exact List.nil_prefix
    · have unread := ResponseHead.parse_part _ (ResponseHead.watchLines_lines _)
        (ResponseHead.watchLines_length_le key) data inside whole
      rw [hear_head [] rfl, List.nil_append, unread] at heard
      obtain ⟨rfl, rfl⟩ := Prod.mk.inj (Except.ok.inj heard)
      exact List.nil_prefix
  · obtain ⟨body, rfl⟩ := beyond
    rw [hear_body] at heard
    cases scanned : ({} : ChunkReader).scan body with
    | error cause => rw [hearBody, scanned] at heard; cases heard
    | ok found =>
      have payloads := ChunkReader.scan_part
        (fun payload member => by
          obtain ⟨entry, known, rfl⟩ := List.mem_map.1 member
          exact (sound entry known).1)
        ending ((List.prefix_append_right_inj _).1 part) scanned
      have some := map_prefix _ payloads
      have decoded := decodeAll_script ((script frames).take found.1.length) fun entry member =>
        (sound entry (List.mem_of_mem_take member)).2
      rw [← some] at decoded
      rw [hearBody_ok scanned decoded, Except.ok.injEq, Prod.mk.injEq] at heard
      rw [← heard.1, List.map_take]
      exact List.take_prefix _ _

/-- All of a stream was read only if each of its frames fits a chunk, and then it gives
all frames. -/
theorem hear_whole {key : String} {frames got : List Frame} {next : IncomingStream}
    (sized : ∀ frame ∈ frames, frame.WordSized)
    (heard : (ofKey key).hear (WatchStream.opening (some (Key.hash key)) ++ frames.flatMap Frame.chunk) =
      .ok (got, next)) :
    got = (script frames).map (·.2) ∧ ∀ frame ∈ frames, ChunkReader.Fits frame.payload := by
  have sound := script_sound frames sized
  rw [opening_script, hear_body] at heard
  cases scanned : ({} : ChunkReader).scan (((script frames).map (·.1)).flatMap Chunk.frame) with
  | error cause => rw [hearBody, scanned] at heard; cases heard
  | ok found =>
    have fits := ChunkReader.all_fit_of_scan []
      (fun payload member => by
        obtain ⟨entry, known, rfl⟩ := List.mem_map.1 member
        exact (sound entry known).1)
      (by rw [List.append_nil]; exact scanned)
    have decoded := decodeAll_script (script frames) fun entry member => (sound entry member).2
    rw [hearBody_ok (ChunkReader.scan_chunks _ fits) decoded, Except.ok.injEq, Prod.mk.injEq] at heard
    refine ⟨heard.1.symm, fun frame member => fits frame.payload ?_⟩
    exact List.mem_map.2 ⟨(frame.payload, frame.received),
      List.mem_append_right _ (List.mem_map.2 ⟨frame, member, rfl⟩), rfl⟩

theorem hear_accepted {key : String} {frames : List Frame} {tail data : Bytes} {last : ChunkReader}
    (sized : ∀ frame ∈ frames, frame.WordSized)
    (fits : ∀ frame ∈ frames, ChunkReader.Fits frame.payload)
    (ending : ({} : ChunkReader).scan tail = .ok ([], last))
    (part : data <+: WatchStream.opening (some (Key.hash key)) ++ frames.flatMap Frame.chunk ++ tail) :
    ∃ got next, (ofKey key).hear data = .ok (got, next) := by
  have sound := script_sound frames sized
  have all : ∀ payload ∈ (script frames).map (·.1), ChunkReader.Fits payload := by
    intro payload member
    obtain ⟨entry, known, rfl⟩ := List.mem_map.1 member
    rcases List.mem_append.1 known with padding | told
    · obtain ⟨text, listed, rfl⟩ := List.mem_map.1 padding
      obtain ⟨_, nonempty, short⟩ := Frame.decode_padding text listed
      have limit : 512 ≤ 16 ^ ChunkReader.maxDigits := by decide
      exact ⟨List.length_pos_iff.1 nonempty, Nat.lt_of_lt_of_le short limit⟩
    · obtain ⟨frame, listed, rfl⟩ := List.mem_map.1 told
      exact fits frame listed
  rw [opening_script, List.append_assoc] at part
  rcases List.prefix_or_prefix_of_prefix part (List.prefix_append _ _) with inside | beyond
  · by_cases whole : data = ResponseHead.bytesOfLines (ResponseHead.watchLines (Key.hash key))
    · rw [whole, ← List.append_nil (ResponseHead.bytesOfLines _), hear_body, hearBody_nil]
      exact ⟨_, _, rfl⟩
    · have unread := ResponseHead.parse_part _ (ResponseHead.watchLines_lines _)
        (ResponseHead.watchLines_length_le key) data inside whole
      rw [hear_head [] rfl, List.nil_append, unread]
      exact ⟨_, _, rfl⟩
  · obtain ⟨body, rfl⟩ := beyond
    have inner := (List.prefix_append_right_inj _).1 part
    obtain ⟨rest, whole⟩ := inner
    have scanned := ChunkReader.scan_append_ok (ChunkReader.scan_chunks _ all) tail
    rw [ending, ← whole] at scanned
    obtain ⟨payloads, _, middle, first, _, _⟩ := ChunkReader.scan_first scanned
    have prefixes := ChunkReader.scan_part
      (fun payload member => (all payload member).1) ending ⟨rest, whole⟩ first
    have some := map_prefix _ prefixes
    have decoded := decodeAll_script ((script frames).take payloads.length) fun entry member =>
      (sound entry (List.mem_of_mem_take member)).2
    rw [← some] at decoded
    rw [hear_body, hearBody_ok first decoded]
    exact ⟨_, _, rfl⟩

theorem hear_failure {key : String} {reply : Reply} {data : Bytes} {got : List Frame}
    {next : IncomingStream}
    (failure : reply = .notFound (some (Key.hash key)) ∨ reply = .badRequest (some (Key.hash key)))
    (part : data <+: reply.data) (heard : (ofKey key).hear data = .ok (got, next)) : got = [] := by
  rw [hear_head [] rfl, List.nil_append] at heard
  cases parsed : ResponseHead.parse data with
  | error cause => rw [parsed] at heard; cases heard
  | ok found =>
    rw [parsed] at heard
    cases found with
    | none => exact (Prod.mk.inj (Except.ok.inj heard)).1.symm
    | some found =>
      obtain ⟨head, used⟩ := found
      have refused := ResponseHead.failure_refused _ reply failure data part head used parsed
      have checked : (ofKey key).check head = .error (.refused head.status) := by
        rw [check, if_pos refused]
      simp only [checked, Except.bind, reduceCtorEq] at heard

end TileRoom.IncomingStream
