import Mathlib.Algebra.GroupWithZero.Nat
import TileRoom.Response.WatchStream

/-! A watch stream writes into buffers as if it wrote one endless text. What a buffer
receives is a slice of the message being written, so a buffer of `first + second`
bytes gets what two buffers of these sizes get one after the other, and the stream
is left in the same state. -/

namespace TileRoom

attribute [ext] OutBuf

namespace OutBuf

theorem write_eq (out : OutBuf) (pos : Nat) (message : Bytes) :
    out.write pos message =
      ⟨decide (message.length ≤ pos + out.remaining),
        pos + min (message.length - pos) out.remaining, (out.push (message.drop pos)).2⟩ := by
  unfold write
  split
  · simp only [push, List.length_drop, Written.mk.injEq, and_true]
    rw [decide_eq_decide]
    omega
  · rename_i past
    have gone : message.drop pos = [] := List.drop_eq_nil_of_le (by omega)
    have same : (out.push []).2 = out := by ext1 <;> simp [push]
    rw [gone, same, Nat.sub_eq_zero_of_le (by omega)]
    simp only [Nat.zero_min, Nat.add_zero, Written.mk.injEq, and_true]
    exact (decide_eq_true (by omega)).symm

theorem bytes_push (out : OutBuf) (data : Bytes) :
    (out.push data).2.bytes = out.bytes ++ data.take out.remaining := rfl

theorem remaining_push_eq (out : OutBuf) (data : Bytes) :
    (out.push data).2.remaining = out.remaining - data.length := by
  rw [remaining_push]
  simp only [push]
  omega

theorem push_append (out : OutBuf) (first second : Bytes) :
    (out.push (first ++ second)).2 = ((out.push first).2.push second).2 := by
  ext1
  · rfl
  · simp only [bytes_push, remaining_push_eq, List.take_append, List.append_assoc]

theorem push_overfull (out : OutBuf) (first second : Bytes)
    (full : out.remaining ≤ first.length) :
    (out.push (first ++ second)).2 = (out.push first).2 := by
  ext1
  · rfl
  · rw [bytes_push, bytes_push, List.take_append, Nat.sub_eq_zero_of_le full]
    simp

theorem writeParts_eq (out : OutBuf) (start offset : Nat) (parts : List Bytes) :
    out.writeParts start (start + offset) parts =
      { out.write offset parts.flatten with pos := start + (out.write offset parts.flatten).pos } := by
  induction parts generalizing out start offset with
  | nil => simp [writeParts, write]
  | cons part rest ih =>
    simp only [writeParts, List.flatten_cons]
    by_cases before : start + offset < start + part.length
    · rw [if_pos before, Nat.add_sub_cancel_left]
      have count : (out.push (part.drop offset)).1 = min (part.length - offset) out.remaining := by
        simp [push]
      rw [count]
      by_cases short : start + offset + min (part.length - offset) out.remaining < start + part.length
      · rw [if_pos short, write_eq, List.drop_append_of_le_length (by omega),
          push_overfull _ _ _ (by rw [List.length_drop]; omega)]
        simp only [List.length_append, Written.mk.injEq, and_true]
        refine ⟨(decide_eq_false (by omega)).symm, by omega⟩
      · rw [if_neg short]
        have whole : start + offset + min (part.length - offset) out.remaining =
            start + part.length + 0 := by omega
        rw [whole, ih, write_eq, write_eq, remaining_push_eq, List.length_drop,
          List.drop_append_of_le_length (by omega), push_append]
        simp only [List.length_append, List.drop_zero, Written.mk.injEq, decide_eq_decide,
          and_true]
        omega
    · rw [if_neg before]
      obtain ⟨beyond, rfl⟩ := Nat.le.dest (show part.length ≤ offset by omega)
      have dropped : (part ++ rest.flatten).drop (part.length + beyond) = rest.flatten.drop beyond := by
        simp [List.drop_append]
      rw [← Nat.add_assoc, ih, write_eq, write_eq, dropped]
      simp only [List.length_append, Written.mk.injEq, decide_eq_decide, and_true]
      omega

theorem writeChunk_eq (out : OutBuf) (pos : Nat) (payload : Bytes) :
    out.writeChunk pos payload = out.write pos (Chunk.frame payload) := by
  have parts := writeParts_eq out 0 pos [Chunk.sizeLine payload.length, payload, Chunk.lineBreak]
  simp only [Nat.zero_add, List.flatten_cons, List.flatten_nil, List.append_nil] at parts
  rw [writeChunk, parts, Chunk.frame, List.append_assoc]

/-- A message was written on from a position as far as there was room. -/
structure Sliced (out : OutBuf) (pos : Nat) (message : Bytes) (written : Written) : Prop where
  stop : written.pos = min (pos + out.remaining) message.length
  bytes : written.out.bytes = out.bytes ++ message.extract pos written.pos
  capacity : written.out.capacity = out.capacity
  within : written.out.bytes.length ≤ out.capacity
  done : written.done = true ↔ written.pos = message.length

theorem sliced_write (out : OutBuf) {pos : Nat} {message : Bytes} (inside : pos ≤ message.length) :
    Sliced out pos message (out.write pos message) := by
  rw [write_eq]
  have count : pos + min (message.length - pos) out.remaining = min (pos + out.remaining) message.length := by
    omega
  have room : (message.drop pos).take out.remaining = message.extract pos (min (pos + out.remaining) message.length) := by
    rw [List.extract_eq_take_drop, List.take_eq_take_iff, List.length_drop]
    omega
  constructor
  · exact count
  · rw [bytes_push, room, count]
  · rfl
  · exact (out.push _).2.fits
  · simp only [decide_eq_true_eq]
    omega

/-- Wherever writing goes on, in a chunk or in a message, and however much room there is, the bytes
behind those of the buffer are a slice of the whole, and writing is done when the slice reaches its end. -/
theorem resumed_as_sliced (out : OutBuf) (pos : Nat) :
    (∀ payload, pos ≤ (Chunk.frame payload).length →
      Sliced out pos (Chunk.frame payload) (out.writeChunk pos payload)) ∧
    ∀ message, pos ≤ message.length → Sliced out pos message (out.write pos message) := by
  constructor
  · intro payload inside
    rw [writeChunk_eq]
    exact sliced_write out inside
  · intro message inside
    exact sliced_write out inside

def halfFull : OutBuf :=
  ⟨3, [7], by decide⟩

/-- Two bytes of a chunk from the middle of its size line on, and then one byte of its last line break. -/
theorem resumed_as_sliced_inside :
    let first := halfFull.writeChunk 1 (bytesOf "ab")
    let last := halfFull.writeChunk 6 (bytesOf "ab")
    (1 ≤ (Chunk.frame (bytesOf "ab")).length ∧ 6 ≤ (Chunk.frame (bytesOf "ab")).length ∧ 2 ≤ (bytesOf "abc").length) ∧
      (first.pos = 3 ∧ first.out.bytes = [7, 0x0D, 0x0A] ∧ first.done ≠ true) ∧
      (last.pos = 7 ∧ last.out.bytes = [7, 0x0A] ∧ last.done = true) ∧
      (halfFull.write 2 (bytesOf "abc")).out.bytes = [7, 0x63] := by
  intro first last
  have frame : Chunk.frame (bytesOf "ab") = [0x32, 0x0D, 0x0A, 0x61, 0x62, 0x0D, 0x0A] := by decide +kernel
  have early : 1 ≤ (Chunk.frame (bytesOf "ab")).length := by rw [frame]; decide
  have late : 6 ≤ (Chunk.frame (bytesOf "ab")).length := by rw [frame]; decide
  have plain : 2 ≤ (bytesOf "abc").length := by decide
  have one := (resumed_as_sliced halfFull 1).1 (bytesOf "ab") early
  have two := (resumed_as_sliced halfFull 6).1 (bytesOf "ab") late
  have three := (resumed_as_sliced halfFull 2).2 (bytesOf "abc") plain
  rw [frame] at one two
  have firstStop : first.pos = 3 := one.stop
  have lastStop : last.pos = 7 := two.stop
  refine ⟨⟨early, late, plain⟩, ⟨firstStop, ?_, ?_⟩, ⟨lastStop, ?_, two.done.2 lastStop⟩, ?_⟩
  · rw [one.bytes, firstStop]
    rfl
  · intro done
    have whole := one.done.1 done
    rw [firstStop] at whole
    exact absurd whole (by decide)
  · rw [two.bytes, lastStop]
    rfl
  · rw [three.bytes, three.stop]
    rfl

end OutBuf

namespace WatchStream

def message? (stream : WatchStream) : Option Bytes :=
  match stream.phase with
  | .head => some stream.head
  | .frame => some (Chunk.frame stream.current.payload)
  | .farewell => some Chunk.farewell
  | .waiting | .done => none

def settled (stream : WatchStream) : WatchStream :=
  match stream.phase with
  | .head => { stream with phase := .frame, pos := 0 }
  | .frame => { stream with phase := .waiting, pos := 0 }
  | .farewell => { stream with phase := .done, pos := 0 }
  | .waiting | .done => stream

def advance (stream : WatchStream) (count : Nat) : WatchStream :=
  { stream with pos := stream.pos + count }

theorem pos_advance (stream : WatchStream) (count : Nat) :
    (stream.advance count).pos = stream.pos + count := rfl

theorem advance_advance (stream : WatchStream) (first second : Nat) :
    (stream.advance first).advance second = stream.advance (first + second) := by
  simp only [advance, Nat.add_assoc]

theorem settled_advance (stream : WatchStream) (count : Nat) (message : Bytes)
    (writing : stream.message? = some message) :
    (stream.advance count).settled = stream.settled := by
  unfold message? at writing
  unfold settled advance
  split at writing <;> simp_all

theorem fill_done (room : Conversation) (out : OutBuf) (stream : WatchStream)
    (done : stream.phase = .done) : fill room out stream = (out, stream) := by
  rw [fill]
  split <;> simp_all

theorem fill_waiting (room : Conversation) (out : OutBuf) (stream : WatchStream)
    (waiting : stream.phase = .waiting) :
    fill room out stream =
      if out.remaining = 0 then (out, stream)
      else (stream.select? room).elim (out, stream) (fill room out) := by
  rw [fill]
  split <;> simp_all only [reduceCtorEq]
  simp only [OutBuf.isFull, decide_eq_true_eq]
  split
  · rfl
  · split <;> simp_all

theorem fill_writing (room : Conversation) (out : OutBuf) (stream : WatchStream)
    (message : Bytes) (writing : stream.message? = some message) :
    fill room out stream =
      if message.length ≤ stream.pos + out.remaining then
        fill room (out.push (message.drop stream.pos)).2 stream.settled
      else
        ((out.push (message.drop stream.pos)).2, stream.advance out.remaining) := by
  have shortfall (less : ¬message.length ≤ stream.pos + out.remaining) :
      min (message.length - stream.pos) out.remaining = out.remaining := by omega
  rw [fill]
  split <;> rename_i phase <;> simp only [message?, phase, Option.some.injEq, reduceCtorEq] at writing
  · subst writing
    simp only [OutBuf.write_eq, decide_eq_true_eq, settled, advance, phase]
    split
    · rfl
    · rw [shortfall ‹_›]
  · subst writing
    simp only [OutBuf.writeChunk_eq, OutBuf.write_eq, decide_eq_true_eq, settled, advance, phase]
    split
    · rfl
    · rw [shortfall ‹_›]
  · subst writing
    simp only [OutBuf.write_eq, decide_eq_true_eq, settled, advance, phase]
    split
    · rw [fill_done _ _ _ rfl]
    · rw [shortfall ‹_›]

theorem message?_eq_none_iff (stream : WatchStream) :
    stream.message? = none ↔ stream.phase = .waiting ∨ stream.phase = .done := by
  unfold message?
  split <;> simp_all

theorem rank_settled (stream : WatchStream) (message : Bytes) (size : Nat)
    (writing : stream.message? = some message) (room : message.length ≤ stream.pos + size) :
    5 * (size - (message.length - stream.pos)) + stream.settled.rank < 5 * size + stream.rank := by
  unfold message? at writing
  split at writing <;> rename_i phase <;> simp only [Option.some.injEq, reduceCtorEq] at writing
  · subst writing
    simp only [settled, phase, rank, frame_nonempty, if_true]
    omega
  · subst writing
    simp only [settled, phase, rank]
    split <;> omega
  · subst writing
    simp only [settled, phase, rank]
    omega

/-- What a stream does with room for `size` bytes: it finishes its message if there is
room for all of it, chooses the next frame if there is room for any, or has nothing to
do. -/
theorem reading_induction (room : Conversation) {motive : Nat → WatchStream → Prop}
    (writing : ∀ size stream message, stream.message? = some message →
      (message.length ≤ stream.pos + size →
        motive (size - (message.length - stream.pos)) stream.settled) → motive size stream)
    (waiting : ∀ size stream, stream.phase = .waiting →
      (∀ next, stream.select? room = some next → motive size next) → motive size stream)
    (done : ∀ size stream, stream.phase = .done → motive size stream)
    (size : Nat) (stream : WatchStream) : motive size stream := by
  induction measured : 5 * size + stream.rank using Nat.strongRecOn generalizing size stream with
  | ind bound ih =>
    cases said : stream.message? with
    | some message =>
      refine writing size stream message said fun fits => ih _ ?_ _ _ rfl
      have less := rank_settled stream message size said fits
      omega
    | none =>
      rcases (message?_eq_none_iff stream).1 said with phase | phase
      · refine waiting size stream phase fun next chosen => ih _ ?_ _ _ rfl
        have here : stream.rank = 2 := by simp only [rank, phase]
        have there := rank_select chosen
        omega
      · exact done size stream phase

theorem fill_same (room : Conversation) (one other : OutBuf) (stream : WatchStream)
    (same : one.remaining = other.remaining) :
    ∃ more, (fill room one stream).1.bytes = one.bytes ++ more ∧
      (fill room other stream).1.bytes = other.bytes ++ more ∧
      (fill room one stream).2 = (fill room other stream).2 := by
  induction sized : one.remaining, stream using reading_induction room generalizing one other with
  | writing size stream message said ih =>
    subst sized
    rw [fill_writing _ _ _ _ said, fill_writing _ _ _ _ said, ← same]
    by_cases fits : message.length ≤ stream.pos + one.remaining
    · rw [if_pos fits, if_pos fits]
      have left (out : OutBuf) : (out.push (message.drop stream.pos)).2.remaining =
          out.remaining - (message.length - stream.pos) := by
        rw [OutBuf.remaining_push_eq, List.length_drop]
      obtain ⟨more, first, second, state⟩ := ih fits (one.push (message.drop stream.pos)).2
        (other.push (message.drop stream.pos)).2 (by rw [left, left, same]) (left one)
      refine ⟨(message.drop stream.pos).take one.remaining ++ more, ?_, ?_, state⟩
      · rw [first, OutBuf.bytes_push, List.append_assoc]
      · rw [second, OutBuf.bytes_push, List.append_assoc, same]
    · rw [if_neg fits, if_neg fits]
      refine ⟨(message.drop stream.pos).take one.remaining, rfl, ?_, rfl⟩
      rw [OutBuf.bytes_push, same]
  | waiting size stream phase ih =>
    rw [fill_waiting _ _ _ phase, fill_waiting _ _ _ phase, ← same]
    by_cases full : one.remaining = 0
    · rw [if_pos full, if_pos full]
      exact ⟨[], by simp, by simp, rfl⟩
    · rw [if_neg full, if_neg full]
      cases chosen : stream.select? room with
      | none => exact ⟨[], by simp, by simp, rfl⟩
      | some next => exact ih next chosen one other same sized
  | done size stream phase =>
    rw [fill_done _ _ _ phase, fill_done _ _ _ phase]
    exact ⟨[], by simp, by simp, rfl⟩

theorem fill_eq_read (room : Conversation) (out : OutBuf) (stream : WatchStream) :
    (fill room out stream).1.bytes = out.bytes ++ (stream.read room out.remaining).1 ∧
      (fill room out stream).2 = (stream.read room out.remaining).2 := by
  obtain ⟨more, first, second, state⟩ :=
    fill_same room out (OutBuf.empty out.remaining) stream (by simp [OutBuf.empty, OutBuf.remaining])
  simp only [OutBuf.empty, List.nil_append] at second
  refine ⟨?_, state⟩
  rw [first, ← second]
  rfl

theorem remaining_empty (size : Nat) : (OutBuf.empty size).remaining = size := by
  simp [OutBuf.empty, OutBuf.remaining]

theorem read_writing (room : Conversation) (stream : WatchStream) (size : Nat) (message : Bytes)
    (writing : stream.message? = some message) :
    stream.read room size =
      if message.length ≤ stream.pos + size then
        (message.drop stream.pos ++
            (stream.settled.read room (size - (message.length - stream.pos))).1,
          (stream.settled.read room (size - (message.length - stream.pos))).2)
      else ((message.drop stream.pos).take size, stream.advance size) := by
  unfold read
  rw [fill_writing _ _ _ _ writing, remaining_empty]
  by_cases fits : message.length ≤ stream.pos + size
  · rw [if_pos fits, if_pos fits]
    have rest := fill_eq_read room ((OutBuf.empty size).push (message.drop stream.pos)).2 stream.settled
    rw [OutBuf.bytes_push, OutBuf.remaining_push_eq, remaining_empty, List.length_drop,
      List.take_of_length_le (by rw [List.length_drop]; omega)] at rest
    exact Prod.ext rest.1 rest.2
  · rw [if_neg fits, if_neg fits]
    change (((OutBuf.empty size).push _).2.bytes, stream.advance size) = _
    rw [OutBuf.bytes_push, remaining_empty]
    rfl

theorem read_waiting (room : Conversation) (stream : WatchStream) (size : Nat)
    (waiting : stream.phase = .waiting) :
    stream.read room size =
      if size = 0 then ([], stream)
      else (stream.select? room).elim ([], stream) (·.read room size) := by
  unfold read
  rw [fill_waiting _ _ _ waiting, remaining_empty]
  by_cases full : size = 0
  · rw [if_pos full, if_pos full]
    rfl
  · rw [if_neg full, if_neg full]
    cases stream.select? room <;> rfl

theorem read_done (room : Conversation) (stream : WatchStream) (size : Nat)
    (done : stream.phase = .done) : stream.read room size = ([], stream) := by
  unfold read
  rw [fill_done _ _ _ done]
  rfl

theorem length_read_le (room : Conversation) (stream : WatchStream) (size : Nat) :
    (stream.read room size).1.length ≤ size := by
  induction size, stream using reading_induction room with
  | writing size stream message said ih =>
    rw [read_writing room stream size message said]
    by_cases fits : message.length ≤ stream.pos + size
    · have rest := ih fits
      rw [if_pos fits, List.length_append, List.length_drop]
      omega
    · rw [if_neg fits]
      exact List.length_take_le _ _
  | waiting size stream phase ih =>
    rw [read_waiting room stream size phase]
    by_cases full : size = 0
    · rw [if_pos full]
      exact Nat.zero_le size
    · rw [if_neg full]
      cases chosen : stream.select? room with
      | none => exact Nat.zero_le size
      | some next => exact ih next chosen
  | done size stream phase =>
    rw [read_done room stream size phase]
    exact Nat.zero_le size

theorem read_add (room : Conversation) (stream : WatchStream) (first second : Nat) :
    stream.read room (first + second) =
      ((stream.read room first).1 ++ ((stream.read room first).2.read room second).1,
        ((stream.read room first).2.read room second).2) := by
  induction first, stream using reading_induction room with
  | writing first stream message said ih =>
    rw [read_writing room stream (first + second) message said,
      read_writing room stream first message said]
    by_cases early : message.length ≤ stream.pos + first
    · rw [if_pos early, if_pos (by omega), List.append_assoc]
      have split : first + second - (message.length - stream.pos) =
          first - (message.length - stream.pos) + second := by omega
      rw [split, ih early]
    · rw [if_neg early]
      rw [read_writing room (stream.advance first) second message said,
        settled_advance stream first message said, pos_advance]
      have slice : (message.drop stream.pos).take first ++ message.drop (stream.pos + first) =
          message.drop stream.pos := by
        rw [← List.drop_drop, List.take_append_drop]
      by_cases late : message.length ≤ stream.pos + (first + second)
      · rw [if_pos late, if_pos (by omega)]
        have left : first + second - (message.length - stream.pos) =
            second - (message.length - (stream.pos + first)) := by omega
        rw [← List.append_assoc, slice, left]
      · rw [if_neg late, if_neg (by omega), List.take_add, List.drop_drop, advance_advance]
  | waiting first stream phase ih =>
    rw [read_waiting room stream (first + second) phase, read_waiting room stream first phase]
    by_cases none : first = 0
    · subst none
      rw [if_pos rfl, ← read_waiting room stream (0 + second) phase, Nat.zero_add, List.nil_append]
    · rw [if_neg none, if_neg (by omega)]
      cases chosen : stream.select? room with
      | some next => exact ih next chosen
      | none =>
        simp only [Option.elim_none, List.nil_append]
        rw [read_waiting room stream second phase, chosen]
        simp
  | done first stream phase =>
    rw [read_done _ _ _ phase, read_done _ _ _ phase, read_done _ _ _ phase]
    rfl

def readAll (stream : WatchStream) (room : Conversation) : List Nat → Bytes × WatchStream
  | [] => ([], stream)
  | size :: sizes =>
      let (bytes, next) := stream.read room size
      let (more, last) := next.readAll room sizes
      (bytes ++ more, last)

/-- Writing is resumable at every byte, whatever the stream and its room: two buffers
get the bytes of one buffer as large as both, any buffers get those of one as large as
all of them, and the stream ends in the same state. -/
theorem resumable (room : Conversation) (stream : WatchStream) :
    (∀ first second : Nat,
      ((stream.read room first).1 ++ ((stream.read room first).2.read room second).1,
        ((stream.read room first).2.read room second).2) = stream.read room (first + second)) ∧
    ∀ (size : Nat) (sizes : List Nat),
      stream.readAll room (size :: sizes) = stream.read room (size :: sizes).sum := by
  refine ⟨fun first second => (read_add room stream first second).symm, ?_⟩
  intro size sizes
  induction sizes generalizing stream size with
  | nil => simp [readAll]
  | cons next sizes ih =>
    rw [List.sum_cons, read_add, ← ih]
    rfl

end WatchStream

namespace Reply

theorem read_spec (reply : Reply) (size : Nat) :
    (reply.read size).2.data = reply.data ∧
      reply.data.take reply.pos ++ (reply.read size).1 = reply.data.take (reply.read size).2.pos := by
  unfold read
  rw [OutBuf.write_eq]
  simp only [OutBuf.bytes_push, WatchStream.remaining_empty]
  refine ⟨trivial, ?_⟩
  change _ ++ ([] ++ _) = _
  rw [List.nil_append, List.take_add, ← List.length_drop, Nat.min_comm, ← List.take_eq_take_min]

theorem read_nil {reply : Reply} {size : Nat} (space : 0 < size) (empty : (reply.read size).1 = []) :
    reply.data.length ≤ reply.pos := by
  unfold read at empty
  rw [OutBuf.write_eq] at empty
  simp only [OutBuf.bytes_push, WatchStream.remaining_empty] at empty
  have taken : (reply.data.drop reply.pos).take size = [] := empty
  have short := congrArg List.length taken
  rw [List.length_take, List.length_drop, List.length_nil] at short
  omega

end Reply

end TileRoom
