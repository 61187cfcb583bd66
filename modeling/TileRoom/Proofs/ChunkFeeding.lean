import Mathlib.Data.List.TakeWhile
import TileRoom.Chunk.Reader
import TileRoom.Proofs.Text.Forms

/-! A chunked body fed in pieces. Lines and payloads are read in runs of bytes, and a run
that is cut in two is read like the whole of it, so the pieces leave no trace. -/

namespace TileRoom.ChunkReader

variable {reader : ChunkReader} {first second run : Bytes}

/-- What a piece comes to: its payloads and the reader after it, or its error. -/
def scan (reader : ChunkReader) (piece : Bytes) : Except ProtocolError (List Bytes × ChunkReader) :=
  match reader.feed piece with
  | (.ok payloads, next) => .ok (payloads, next)
  | (.error cause, _) => .error cause

def resume (found : Except ProtocolError (List Bytes × ChunkReader)) (piece : Bytes) :
    Except ProtocolError (List Bytes × ChunkReader) :=
  found.bind fun early => (early.2.scan piece).map fun late => (early.1 ++ late.1, late.2)

theorem feed_scan (reader : ChunkReader) (piece : Bytes) :
    (reader.feed piece).1 = (reader.scan piece).map (·.1) ∧
      ∀ payloads next, reader.scan piece = .ok (payloads, next) → (reader.feed piece).2 = next := by
  unfold scan
  rcases reader.feed piece with ⟨cause | payloads, next⟩
  · exact ⟨rfl, nofun⟩
  · refine ⟨rfl, fun _ _ same => ?_⟩
    exact (Prod.mk.inj (Except.ok.inj same)).2

theorem scan_nil (reader : ChunkReader) : reader.scan [] = .ok ([], reader) := by
  rw [scan, feed]

def Progress.scanned : Progress → Except ProtocolError (List Bytes × ChunkReader)
  | (.error cause, _) => .error cause
  | (.ok payload, next) => .ok (payload.toList, next)

theorem scan_cons (reader : ChunkReader) (byte : UInt8) (rest : Bytes) :
    reader.scan (byte :: rest) =
      resume (reader.advance byte rest).2.scanned (rest.drop ((reader.advance byte rest).1 - 1)) := by
  rw [scan, feed, resume]
  rcases reader.advance byte rest with ⟨used, cause | payload, next⟩
  · rfl
  · simp only [Progress.scanned, Except.bind, scan]
    rcases next.feed (rest.drop (used - 1)) with ⟨cause | payloads, last⟩ <;> rfl

theorem resume_none (reader : ChunkReader) (piece : Bytes) :
    resume (.ok ([], reader)) piece = reader.scan piece := by
  rw [resume, Except.bind]
  cases reader.scan piece <;> rfl

theorem resume_append {found : Except ProtocolError (List Bytes × ChunkReader)}
    (both : ∀ early, found = .ok early →
      early.2.scan (first ++ second) = resume (early.2.scan first) second) :
    resume found (first ++ second) = resume (resume found first) second := by
  cases found with
  | error cause => rfl
  | ok early =>
    have read := both early rfl
    simp only [resume, Except.bind] at read ⊢
    rw [read]
    cases early.2.scan first with
    | error cause => rfl
    | ok middle =>
      simp only [Except.map]
      cases middle.2.scan second with
      | error cause => rfl
      | ok late => simp only [List.append_assoc]

section

variable (lined : reader.phase = .size ∨ reader.phase = .trailer) (plain : 0x0A ∉ run)

include lined

theorem advance_line (byte : UInt8) (rest : Bytes) :
    reader.advance byte rest = reader.readLine (byte :: rest) := by
  rcases lined with phase | phase <;> simp only [advance, phase]

include plain

theorem scan_line :
    reader.scan run =
      if reader.line.length + run.length ≤ maxLine ∨ run = [] then
        .ok ([], { reader with line := reader.line ++ run })
      else .error .sizeLineTooLong := by
  cases run with
  | nil => rw [scan_nil, if_pos (Or.inr rfl), List.append_nil]
  | cons byte rest =>
    have each : ∀ other ∈ byte :: rest, decide (other ≠ 0x0A) = true :=
      fun other member => decide_eq_true fun same => plain (same ▸ member)
    rw [scan_cons, advance_line lined]
    simp only [readLine, List.takeWhile_eq_self_iff.2 each, List.dropWhile_eq_nil_iff.2 each, if_true,
      reduceCtorEq, or_false]
    by_cases fits : reader.line.length + (byte :: rest).length ≤ maxLine
    · rw [if_neg (Nat.not_lt.2 fits), if_pos fits]
      simp only [Progress.scanned, List.length_cons, Nat.add_sub_cancel, List.drop_length]
      exact resume_none .. |>.trans (scan_nil _)
    · rw [if_pos (Nat.lt_of_not_le fits), if_neg fits]
      rfl

theorem scan_line_end (rest : Bytes) :
    reader.scan (run ++ 0x0A :: rest) =
      if maxLine < reader.line.length + run.length then .error .sizeLineTooLong
      else resume (endLine { reader with line := reader.line ++ run }).scanned rest := by
  have taken := Cut.takeWhile_ne_append run rest plain
  have left := Cut.dropWhile_ne_append run rest plain
  have dropped : (run ++ 0x0A :: rest).drop (run.length + 1) = rest := by
    rw [← List.drop_drop, List.drop_left]
    rfl
  obtain ⟨byte, others, form⟩ := List.exists_cons_of_ne_nil (by simp : run ++ 0x0A :: rest ≠ [])
  rw [form] at taken left dropped ⊢
  rw [scan_cons, advance_line lined]
  simp only [readLine, taken, left, reduceCtorEq, if_false]
  by_cases long : maxLine < reader.line.length + run.length
  · rw [if_pos long, if_pos long]
    rfl
  · rw [if_neg long, if_neg long]
    simp only [Nat.add_sub_cancel]
    rw [← dropped]
    rfl

theorem scan_line_append (second : Bytes) :
    reader.scan (run ++ second) = resume (reader.scan run) second := by
  have apart {more : Bytes} (other : 0x0A ∉ more) : 0x0A ∉ run ++ more := by
    rw [List.mem_append, not_or]
    exact ⟨plain, other⟩
  rw [scan_line lined plain]
  by_cases fits : reader.line.length + run.length ≤ maxLine ∨ run = []
  · have still : { reader with line := reader.line ++ run }.phase = .size ∨
        { reader with line := reader.line ++ run }.phase = .trailer := lined
    rw [if_pos fits, resume_none]
    by_cases ended : 0x0A ∈ second
    · obtain ⟨inside, rest, rfl, other⟩ := List.eq_append_cons_of_mem ended
      rw [← List.append_assoc, scan_line_end lined (apart other), scan_line_end still other]
      simp only [List.length_append, List.append_assoc, Nat.add_assoc]
    · rw [scan_line lined (apart ended), scan_line still ended]
      simp only [List.length_append, List.append_assoc, Nat.add_assoc, List.append_eq_nil_iff]
      -- An empty piece is never refused, whatever was collected before.
      by_cases none : second = []
      · rw [none, if_pos (Or.inr rfl), List.length_nil, Nat.add_zero, if_pos]
        exact fits.imp_right fun empty => ⟨empty, rfl⟩
      · simp only [none, and_false, or_false]
  · rw [if_neg fits]
    obtain ⟨long, nonempty⟩ := not_or.1 fits
    by_cases ended : 0x0A ∈ second
    · obtain ⟨inside, rest, rfl, other⟩ := List.eq_append_cons_of_mem ended
      rw [← List.append_assoc, scan_line_end lined (apart other), if_pos]
      · rfl
      · rw [List.length_append]
        omega
    · rw [scan_line lined (apart ended), if_neg]
      · rfl
      · rw [List.length_append, List.append_eq_nil_iff]
        exact not_or.2 ⟨by omega, fun both => nonempty both.1⟩

end

section

variable {more : Nat} (phase : reader.phase = .data more)

include phase

theorem advance_data (byte : UInt8) (rest : Bytes) :
    reader.advance byte rest = reader.readData more (byte :: rest) := by
  simp only [advance, phase]

theorem scan_data (short : run.length ≤ more) :
    reader.scan run =
      .ok ([], { reader with phase := .data (more - run.length), chunk := reader.chunk ++ run }) := by
  cases run with
  | nil =>
    rw [scan_nil, List.append_nil, List.length_nil, Nat.sub_zero, ← phase]
  | cons byte rest =>
    have count : min (more + 1) (byte :: rest).length = (byte :: rest).length := by omega
    have unended : (byte :: rest).length ≠ more + 1 := by omega
    rw [scan_cons, advance_data phase, readData]
    simp only [count, if_neg unended, enter, Progress.scanned, List.take_length]
    rw [List.length_cons, Nat.add_sub_cancel, List.drop_length]
    exact (resume_none _ _).trans (scan_nil _)

theorem scan_data_end (whole : run.length = more + 1) (rest : Bytes) :
    reader.scan (run ++ rest) =
      scan { reader with phase := .cr, chunk := reader.chunk ++ run } rest := by
  obtain ⟨byte, others, rfl⟩ := List.exists_cons_of_length_eq_add_one whole
  have count : min (more + 1) (byte :: (others ++ rest)).length = more + 1 := by
    rw [List.length_cons] at whole
    rw [List.length_cons, List.length_append]
    omega
  have taken : (byte :: (others ++ rest)).take (more + 1) = byte :: others := by
    rw [← List.cons_append, ← whole, List.take_left]
  have left : (others ++ rest).drop more = rest := by
    rw [List.length_cons, Nat.add_right_cancel_iff] at whole
    rw [← whole, List.drop_left]
  rw [List.cons_append, scan_cons, advance_data phase, readData]
  simp only [count, taken, if_true, enter, Progress.scanned, Nat.add_sub_cancel, left]
  exact resume_none ..

theorem scan_data_append (short : run.length ≤ more) (second : Bytes) :
    reader.scan (run ++ second) = resume (reader.scan run) second := by
  rw [scan_data phase short, resume_none]
  have still : ({ reader with phase := .data (more - run.length), chunk := reader.chunk ++ run } :
      ChunkReader).phase = .data (more - run.length) := rfl
  by_cases fits : second.length ≤ more - run.length
  · rw [scan_data still fits, scan_data phase (by rw [List.length_append]; omega), List.length_append,
      List.append_assoc, Nat.sub_sub]
  · obtain ⟨inside, rest, rfl, length⟩ :
        ∃ inside rest, second = inside ++ rest ∧ inside.length = more - run.length + 1 :=
      ⟨_, _, (List.take_append_drop (more - run.length + 1) second).symm, by
        rw [List.length_take]
        omega⟩
    have whole : (run ++ inside).length = more + 1 := by
      rw [List.length_append]
      omega
    rw [← List.append_assoc, scan_data_end phase whole, scan_data_end still length, List.append_assoc]

end

theorem scan_done (phase : reader.phase = .done) (piece : Bytes) : reader.scan piece = .ok ([], reader) := by
  cases piece with
  | nil => exact scan_nil reader
  | cons byte rest =>
    rw [scan_cons]
    simp only [advance, phase, Progress.scanned, Nat.add_sub_cancel, List.drop_length]
    exact (resume_none reader []).trans (scan_nil reader)

/-- Whether a round ends with its piece because nothing more of the piece is there. -/
def Unended (reader : ChunkReader) (piece : Bytes) : Prop :=
  ((reader.phase = .size ∨ reader.phase = .trailer) ∧ 0x0A ∉ piece) ∨
    (∃ more, reader.phase = .data more ∧ piece.length ≤ more) ∨ reader.phase = .done

theorem scan_append_unended {piece : Bytes} (unended : reader.Unended piece) (second : Bytes) :
    reader.scan (piece ++ second) = resume (reader.scan piece) second := by
  rcases unended with ⟨lined, plain⟩ | ⟨more, phase, short⟩ | phase
  · exact scan_line_append lined plain second
  · exact scan_data_append phase short second
  · rw [scan_done phase, scan_done phase, resume_none, scan_done phase]

theorem advance_append {byte : UInt8} {rest : Bytes} (ended : ¬reader.Unended (byte :: rest)) (second : Bytes) :
    reader.advance byte (rest ++ second) = reader.advance byte rest ∧
      (reader.advance byte rest).1 - 1 ≤ rest.length := by
  have line (lined : reader.phase = .size ∨ reader.phase = .trailer) :
      reader.advance byte (rest ++ second) = reader.advance byte rest ∧
        (reader.advance byte rest).1 - 1 ≤ rest.length := by
    have there : 0x0A ∈ byte :: rest := by
      by_contra plain
      exact ended (.inl ⟨lined, plain⟩)
    obtain ⟨run, left, form, plain⟩ := List.eq_append_cons_of_mem there
    have length := congrArg List.length form
    rw [List.length_cons, List.length_append, List.length_cons] at length
    rw [advance_line lined, advance_line lined, ← List.cons_append, form, List.append_assoc, List.cons_append]
    simp only [readLine, Cut.takeWhile_ne_append run _ plain, Cut.dropWhile_ne_append run _ plain,
      reduceCtorEq, if_false, true_and]
    split
    all_goals
      simp only
      omega
  cases phase : reader.phase with
  | size => exact line (.inl phase)
  | trailer => exact line (.inr phase)
  | data more =>
    have enough : more < (byte :: rest).length := by
      by_contra short
      exact ended (.inr (.inl ⟨more, phase, Nat.le_of_not_lt short⟩))
    have count : min (more + 1) (byte :: rest).length = more + 1 := by omega
    have longer : min (more + 1) (byte :: (rest ++ second)).length = more + 1 := by
      rw [List.length_cons] at enough ⊢
      rw [List.length_append]
      omega
    have taken : (byte :: (rest ++ second)).take (more + 1) = (byte :: rest).take (more + 1) := by
      rw [← List.cons_append, List.take_append_of_le_length enough]
    rw [advance_data phase, advance_data phase, readData, readData]
    simp only [count, longer, taken]
    exact ⟨trivial, Nat.le_of_lt_succ enough⟩
  | cr | lf =>
    simp only [advance, phase]
    exact ⟨trivial, Nat.zero_le _⟩
  | done => exact absurd (.inr (.inr phase)) ended

/-- After a piece that was read, reading goes on from where it ended. -/
theorem scan_append (reader : ChunkReader) (first second : Bytes) :
    reader.scan (first ++ second) = resume (reader.scan first) second := by
  fun_induction feed reader first with
  | case1 reader => rw [List.nil_append, scan_nil, resume_none]
  | case2 reader byte rest used cause next round =>
    by_cases unended : reader.Unended (byte :: rest)
    · exact scan_append_unended unended second
    · rw [List.cons_append, scan_cons, scan_cons, (advance_append unended second).1, round]
      rfl
  | case3 reader byte rest used payload next round _ _ _ ih =>
    by_cases unended : reader.Unended (byte :: rest)
    · exact scan_append_unended unended second
    · obtain ⟨same, inside⟩ := advance_append unended second
      rw [List.cons_append, scan_cons, scan_cons, same, List.drop_append_of_le_length inside, round]
      apply resume_append
      intro early there
      obtain rfl := Except.ok.inj there
      exact ih

theorem scan_append_ok {middle : ChunkReader} {early : List Bytes}
    (scanned : reader.scan first = .ok (early, middle)) (second : Bytes) :
    reader.scan (first ++ second) =
      (middle.scan second).map fun late => (early ++ late.1, late.2) := by
  rw [scan_append, scanned]
  rfl

theorem scan_first {last : ChunkReader} {payloads : List Bytes}
    (scanned : reader.scan (first ++ second) = .ok (payloads, last)) :
    ∃ early late middle, reader.scan first = .ok (early, middle) ∧
      middle.scan second = .ok (late, last) ∧ payloads = early ++ late := by
  rw [scan_append] at scanned
  cases one : reader.scan first with
  | error cause => rw [one] at scanned; cases scanned
  | ok early =>
    rw [one] at scanned
    cases two : early.2.scan second with
    | error cause => simp [resume, Except.bind, Except.map, two] at scanned
    | ok late =>
      simp only [resume, Except.bind, Except.map, two, Except.ok.injEq, Prod.mk.injEq] at scanned
      exact ⟨early.1, late.1, early.2, rfl, by rw [← scanned.2, two], scanned.1.symm⟩

theorem scan_rest {middle last : ChunkReader} {early payloads : List Bytes}
    (begun : reader.scan first = .ok (early, middle)) (scanned : reader.scan (first ++ second) = .ok (payloads, last)) :
    ∃ late, middle.scan second = .ok (late, last) ∧ payloads = early ++ late := by
  obtain ⟨_, late, _, one, two, whole⟩ := scan_first scanned
  obtain ⟨rfl, rfl⟩ := Prod.mk.inj (Except.ok.inj (begun.symm.trans one))
  exact ⟨late, two, whole⟩

theorem scan_silent {data whole : Bytes} {last next : ChunkReader} {heard : List Bytes} (part : data <+: whole)
    (silent : reader.scan whole = .ok ([], last)) (scanned : reader.scan data = .ok (heard, next)) : heard = [] := by
  obtain ⟨rest, rfl⟩ := part
  obtain ⟨late, _, none⟩ := scan_rest scanned silent
  exact (List.append_eq_nil_iff.1 none.symm).1

def feedAll (reader : ChunkReader) : List Bytes → Except ProtocolError (List Bytes × ChunkReader)
  | [] => .ok ([], reader)
  | piece :: rest =>
      match reader.feed piece with
      | (.error cause, _) => .error cause
      | (.ok payloads, next) =>
          (next.feedAll rest).map fun found => (payloads ++ found.1, found.2)

theorem feedAll_eq (reader : ChunkReader) (pieces : List Bytes) :
    reader.feedAll pieces = reader.scan pieces.flatten := by
  induction pieces generalizing reader with
  | nil => exact (scan_nil reader).symm
  | cons piece rest ih =>
    rw [feedAll, List.flatten_cons, scan_append, scan]
    rcases reader.feed piece with ⟨cause | payloads, next⟩
    · rfl
    · simp only [ih]
      rfl

/-- However the bytes of a body are cut, they are refused with the same error or give the same
payloads, and the reader ends in the same place. -/
theorem cuts_decode_alike (first second : List Bytes) (same : first.flatten = second.flatten) :
    feedAll {} first = feedAll {} second := by
  rw [feedAll_eq, feedAll_eq, same]

/-- A body that is cut inside a size, before and inside a line break, inside a payload and
inside a trailer. -/
def cutBody : List Bytes :=
  [bytesOf "1", bytesOf "0;na", [], bytesOf "me\r", bytesOf "\n0123456789abc", bytesOf "def\r",
    bytesOf "\n0\r\nX-Tail", bytesOf ": 1\r\n\r", bytesOf "\n"]

theorem cutBody_decoded :
    cutBody.flatten = [cutBody.flatten].flatten ∧ feedAll {} cutBody = feedAll {} [cutBody.flatten] ∧
      (feedAll {} cutBody).toOption = some ([bytesOf "0123456789abcdef"], { phase := .done }) := by
  have whole : cutBody.flatten = [cutBody.flatten].flatten := by decide
  exact ⟨whole, cuts_decode_alike cutBody [cutBody.flatten] whole, by decide +kernel⟩

end TileRoom.ChunkReader
