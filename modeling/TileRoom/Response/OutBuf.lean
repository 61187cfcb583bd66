import TileRoom.Chunk

/-! Output buffers of bounded size. A message is written from a position on, as
far as the buffer has room, so writing can go on in the next buffer. -/

namespace TileRoom

structure OutBuf where
  capacity : Nat
  bytes : Bytes
  fits : bytes.length ≤ capacity

namespace OutBuf

def empty (capacity : Nat) : OutBuf :=
  ⟨capacity, [], Nat.zero_le _⟩

def remaining (out : OutBuf) : Nat :=
  out.capacity - out.bytes.length

def isFull (out : OutBuf) : Bool :=
  out.remaining = 0

def push (out : OutBuf) (data : Bytes) : Nat × OutBuf :=
  (min data.length out.remaining,
    { capacity := out.capacity
      bytes := out.bytes ++ data.take out.remaining
      fits := by
        have fits := out.fits
        simp only [remaining, List.length_append, List.length_take]
        omega })

/-- Where writing a message got to: whether all of it is written, the position to
go on from, and the buffer. -/
structure Written where
  done : Bool
  pos : Nat
  out : OutBuf

def write (out : OutBuf) (pos : Nat) (message : Bytes) : Written :=
  if pos < message.length then
    let (count, out) := out.push (message.drop pos)
    ⟨message.length ≤ pos + count, pos + count, out⟩
  else ⟨true, pos, out⟩

/-- Goes on writing parts that form one message. The first of them starts at
`start`, and positions count from the start of the message. -/
def writeParts (out : OutBuf) (start pos : Nat) : List Bytes → Written
  | [] => ⟨true, pos, out⟩
  | part :: rest =>
      let next := start + part.length
      if pos < next then
        let (count, out) := out.push (part.drop (pos - start))
        if pos + count < next then ⟨false, pos + count, out⟩
        else writeParts out next (pos + count) rest
      else writeParts out next pos rest

def writeChunk (out : OutBuf) (pos : Nat) (payload : Bytes) : Written :=
  out.writeParts 0 pos [Chunk.sizeLine payload.length, payload, Chunk.lineBreak]

theorem remaining_push (out : OutBuf) (data : Bytes) :
    (out.push data).2.remaining = out.remaining - (out.push data).1 := by
  simp only [push, remaining, List.length_append, List.length_take]
  omega

theorem remaining_write_le (out : OutBuf) (pos : Nat) (message : Bytes) :
    (out.write pos message).out.remaining ≤ out.remaining := by
  unfold write
  split
  · simp only [remaining_push]
    omega
  · exact Nat.le_refl _

theorem remaining_writeParts (out : OutBuf) (start pos : Nat) (parts : List Bytes)
    (inside : start ≤ pos) :
    (out.writeParts start pos parts).out.remaining ≤ out.remaining ∧
      ((out.writeParts start pos parts).done = true →
        (out.writeParts start pos parts).out.remaining + (start + parts.flatten.length - pos) ≤
          out.remaining) := by
  induction parts generalizing out start pos with
  | nil => simp [writeParts, Nat.sub_eq_zero_of_le inside]
  | cons part rest ih =>
    simp only [writeParts, List.flatten_cons, List.length_append]
    by_cases before : pos < start + part.length
    · simp only [before, if_true]
      have used : (out.push (part.drop (pos - start))).1 ≤ out.remaining := by
        simp only [push]; omega
      have bound : (out.push (part.drop (pos - start))).1 ≤ start + part.length - pos := by
        simp only [push, List.length_drop]; omega
      have left := out.remaining_push (part.drop (pos - start))
      by_cases short : pos + (out.push (part.drop (pos - start))).1 < start + part.length
      · simp only [short, if_true, left]
        exact ⟨by omega, by simp⟩
      · simp only [short, if_false]
        have step := ih (out.push (part.drop (pos - start))).2 (start + part.length)
          (pos + (out.push (part.drop (pos - start))).1) (by omega)
        refine ⟨by omega, fun done => ?_⟩
        have more := step.2 done
        omega
    · simp only [before, if_false]
      have step := ih out (start + part.length) pos (by omega)
      refine ⟨step.1, fun done => ?_⟩
      have more := step.2 done
      omega

theorem remaining_writeChunk_lt (out : OutBuf) (pos : Nat) (payload : Bytes)
    (unfinished : pos < (Chunk.frame payload).length)
    (done : (out.writeChunk pos payload).done = true) :
    (out.writeChunk pos payload).out.remaining < out.remaining := by
  have bound := (out.remaining_writeParts 0 pos
    [Chunk.sizeLine payload.length, payload, Chunk.lineBreak] (Nat.zero_le _)).2 done
  simp only [List.flatten_cons, List.flatten_nil, List.length_append, List.length_nil] at bound
  simp only [Chunk.frame, List.length_append] at unfinished
  simp only [writeChunk]
  omega

theorem remaining_writeChunk_le (out : OutBuf) (pos : Nat) (payload : Bytes) :
    (out.writeChunk pos payload).out.remaining ≤ out.remaining :=
  (out.remaining_writeParts 0 pos _ (Nat.zero_le _)).1

end OutBuf

end TileRoom
