import Mathlib.Data.List.TakeWhile
import TileRoom.Handshake.HeadReader
import TileRoom.Proofs.Text.Forms

/-! The head of a request fed in pieces. A line is read in runs of bytes, and a run that is
cut in two is read like the whole of it, so the pieces leave no trace. -/

namespace TileRoom

def HeadProgress.after (count : Nat) : HeadProgress → HeadProgress
  | .finished used => .finished (count + used)
  | .more => .more
  | .failed cause => .failed cause

def HeadProgress.again? : HeadProgress → Option HeadProgress
  | .finished _ => some (.finished 0)
  | .more => none
  | .failed cause => some (.failed cause)

namespace HeadReader

variable {reader next : HeadReader} {used : Nat} {progress : HeadProgress}

theorem feedFrom_over (stopped : reader.outcome? used = some progress) (bytes : Bytes) :
    feedFrom used reader bytes = (progress, reader) := by
  rw [feedFrom.eq_def]
  split
  · rename_i found
    rw [stopped] at found
    rw [Option.some.inj found]
  · rename_i going
    rw [stopped] at going
    cases going

theorem feedFrom_nil (going : reader.outcome? used = none) : feedFrom used reader [] = (.more, reader) := by
  rw [feedFrom.eq_def]
  split
  · rename_i found
    rw [going] at found
    cases found
  · rfl

theorem feedFrom_cons (going : reader.outcome? used = none) (byte : UInt8) (rest : Bytes) :
    feedFrom used reader (byte :: rest) =
      feedFrom (used + (reader.advance byte rest).1) (reader.advance byte rest).2
        ((byte :: rest).drop (reader.advance byte rest).1) := by
  rw [feedFrom.eq_def]
  split
  · rename_i found
    rw [going] at found
    cases found
  · rfl

theorem outcome?_of_line {part : HeadPart} (phase : reader.phase = .line part) (used : Nat) :
    reader.outcome? used = none := by
  rw [outcome?, phase]

def resume (used : Nat) (found : HeadProgress × HeadReader) (bytes : Bytes) : HeadProgress × HeadReader :=
  match found with
  | (.more, reader) => feedFrom used reader bytes
  | (progress, reader) => (progress, reader)

theorem resume_over (stopped : reader.outcome? used = some progress) (later : Nat) (bytes : Bytes) :
    resume later (progress, reader) bytes = (progress, reader) := by
  unfold outcome? at stopped
  cases phase : reader.phase with
  | done => rw [phase] at stopped; obtain rfl := Option.some.inj stopped; rfl
  | failed cause => rw [phase] at stopped; obtain rfl := Option.some.inj stopped; rfl
  | line | lineEnd | continuation => rw [phase] at stopped; cases stopped

theorem resume_nil (going : reader.outcome? used = none) (bytes : Bytes) :
    resume used (feedFrom used reader []) bytes = feedFrom used reader bytes := by
  rw [feedFrom_nil going, resume]

theorem extend_append (reader : HeadReader) (first second : Bytes) :
    reader.extend (first ++ second) =
      if reader.line.length + first.length ≤ Head.maxLine then (reader.extend first).extend second
      else reader.extend first := by
  unfold extend
  by_cases fits : reader.line.length + first.length ≤ Head.maxLine
  · simp only [if_pos fits, List.length_append, List.append_assoc, Nat.add_assoc]
    rfl
  · rw [if_neg fits, if_neg fits, List.length_append, if_neg (by omega)]

theorem extend_enter (reader : HeadReader) (phase : HeadPhase) (run : Bytes) :
    (reader.enter phase).extend run =
      if reader.line.length + run.length ≤ Head.maxLine then (reader.extend run).enter phase
      else reader.extend run := by
  have line : (reader.enter phase).line = reader.line := rfl
  unfold extend
  rw [line]
  split <;> rfl

theorem readLine_run (reader : HeadReader) (part : HeadPart) (run : Bytes) (plain : 0x0D ∉ run) :
    reader.readLine part run = (run.length, reader.extend run) := by
  have each : ∀ byte ∈ run, decide (byte ≠ 0x0D) = true :=
    fun byte member => decide_eq_true fun cr => plain (cr ▸ member)
  simp only [readLine, List.takeWhile_eq_self_iff.2 each, List.dropWhile_eq_nil_iff.2 each, if_true]

theorem readLine_cr (reader : HeadReader) (part : HeadPart) (run rest : Bytes) (plain : 0x0D ∉ run) :
    reader.readLine part (run ++ 0x0D :: rest) =
      (run.length + 1, (reader.enter (.lineEnd part)).extend run) := by
  simp only [readLine, Cut.takeWhile_ne_append run rest plain, Cut.dropWhile_ne_append run rest plain,
    reduceCtorEq, if_false]

section

variable {part : HeadPart} (phase : reader.phase = .line part) (used : Nat) {run : Bytes} (plain : 0x0D ∉ run)

include phase plain

theorem feedFrom_run (nonempty : run ≠ []) :
    feedFrom used reader run = feedFrom (used + run.length) (reader.extend run) [] := by
  obtain ⟨byte, rest, rfl⟩ := List.exists_cons_of_ne_nil nonempty
  have round : reader.advance byte rest = reader.readLine part (byte :: rest) := by
    simp only [advance, phase]
  rw [feedFrom_cons (outcome?_of_line phase used), round, readLine_run reader part _ plain, List.drop_length]

theorem feedFrom_cr (rest : Bytes) :
    feedFrom used reader (run ++ 0x0D :: rest) =
      feedFrom (used + run.length + 1) ((reader.enter (.lineEnd part)).extend run) rest := by
  have round (byte : UInt8) (others : Bytes) :
      reader.advance byte others = reader.readLine part (byte :: others) := by
    simp only [advance, phase]
  have left : (run ++ 0x0D :: rest).drop (run.length + 1) = rest := by
    rw [← List.drop_drop, List.drop_left]
    rfl
  have found := readLine_cr reader part run rest plain
  obtain ⟨byte, others, form⟩ := List.exists_cons_of_ne_nil (l := run ++ 0x0D :: rest) (by simp)
  rw [form] at found left ⊢
  rw [feedFrom_cons (outcome?_of_line phase used), round, found, left]
  rfl

theorem feedFrom_run_append (more : Bytes) :
    feedFrom used reader (run ++ more) = resume (used + run.length) (feedFrom used reader run) more := by
  by_cases empty : run = []
  · rw [empty, List.nil_append, List.length_nil, Nat.add_zero, resume_nil (outcome?_of_line phase used)]
  have apart {second : Bytes} (other : 0x0D ∉ second) : 0x0D ∉ run ++ second := by
    rw [List.mem_append, not_or]
    exact ⟨plain, other⟩
  rw [feedFrom_run phase used plain empty]
  by_cases fits : reader.line.length + run.length ≤ Head.maxLine
  · have line : (reader.extend run).phase = .line part := by
      rw [extend, if_pos fits]
      exact phase
    rw [resume_nil (outcome?_of_line line _)]
    by_cases cr : 0x0D ∈ more
    · obtain ⟨second, rest, rfl, other⟩ := List.eq_append_cons_of_mem cr
      have both : (reader.enter (.lineEnd part)).extend (run ++ second) =
          ((reader.extend run).enter (.lineEnd part)).extend second := by
        have enters := reader.extend_enter (.lineEnd part) run
        rw [if_pos fits] at enters
        rw [← enters]
        exact (extend_append (reader.enter (.lineEnd part)) run second).trans (if_pos fits)
      rw [← List.append_assoc, feedFrom_cr phase used (apart other), feedFrom_cr line _ other, both,
        List.length_append, ← Nat.add_assoc used]
    · by_cases none : more = []
      · rw [none, List.append_nil, feedFrom_run phase used plain empty]
      · rw [feedFrom_run phase used (apart cr) (List.append_ne_nil_of_left_ne_nil empty _),
          feedFrom_run line _ cr none, extend_append, if_pos fits, List.length_append, Nat.add_assoc used]
  · have stopped (later : Nat) : (reader.extend run).outcome? later = some (.failed .lineTooLong) := by
      rw [extend, if_neg fits]
      rfl
    rw [feedFrom_over (stopped _), resume_over (stopped 0)]
    by_cases cr : 0x0D ∈ more
    · obtain ⟨second, rest, rfl, other⟩ := List.eq_append_cons_of_mem cr
      have same : (reader.enter (.lineEnd part)).extend (run ++ second) = reader.extend run := by
        have enters := reader.extend_enter (.lineEnd part) run
        rw [if_neg fits] at enters
        exact ((extend_append (reader.enter (.lineEnd part)) run second).trans (if_neg fits)).trans enters
      rw [← List.append_assoc, feedFrom_cr phase used (apart other), same, feedFrom_over (stopped _)]
    · rw [feedFrom_run phase used (apart cr) (List.append_ne_nil_of_left_ne_nil empty _), extend_append,
        if_neg fits, feedFrom_over (stopped _)]

end

/-- Where a CR ends the run, or no run is read at all, what follows is not looked at. -/
theorem advance_append (reader : HeadReader) (byte : UInt8) (rest more : Bytes)
    (ended : ∀ part, reader.phase = .line part → 0x0D ∈ byte :: rest) :
    reader.advance byte (rest ++ more) = reader.advance byte rest ∧
      (reader.advance byte rest).1 ≤ (byte :: rest).length := by
  unfold advance
  cases phase : reader.phase with
  | done | failed | continuation => exact ⟨rfl, Nat.zero_le _⟩
  | lineEnd part =>
    refine ⟨rfl, ?_⟩
    simp only [endLine]
    split
    · exact Nat.succ_le_succ (Nat.zero_le _)
    · exact Nat.zero_le _
  | line part =>
    obtain ⟨run, left, form, plain⟩ := List.eq_append_cons_of_mem (ended part phase)
    simp only [← List.cons_append, form, List.append_assoc]
    rw [List.cons_append, readLine_cr reader part run _ plain, readLine_cr reader part run _ plain]
    refine ⟨rfl, ?_⟩
    rw [List.length_append, List.length_cons]
    omega

theorem feedFrom_append (used : Nat) (reader : HeadReader) (first second : Bytes) :
    feedFrom used reader (first ++ second) =
      resume (used + first.length) (feedFrom used reader first) second := by
  fun_induction feedFrom used reader first with
  | case1 used reader first progress stopped =>
    rw [feedFrom_over stopped, resume_over stopped]
  | case2 used reader going =>
    rfl
  | case3 used reader going byte rest round ih =>
    by_cases unended : ∃ part, reader.phase = .line part ∧ 0x0D ∉ byte :: rest
    · obtain ⟨part, phase, plain⟩ := unended
      rw [feedFrom_run_append phase used plain, feedFrom_cons going]
    · have ended : ∀ part, reader.phase = .line part → 0x0D ∈ byte :: rest := by
        intro part phase
        by_contra plain
        exact unended ⟨part, phase, plain⟩
      obtain ⟨same, inside⟩ := reader.advance_append byte rest second ended
      have length : used + round.1 + ((byte :: rest).drop round.1).length = used + (byte :: rest).length := by
        rw [List.length_drop]
        change _ + (reader.advance byte rest).1 + (_ - (reader.advance byte rest).1) = _
        omega
      rw [List.cons_append, feedFrom_cons going, same, ← List.cons_append,
        List.drop_append_of_le_length inside, ih, length]

theorem outcome?_add (reader : HeadReader) (count used : Nat) :
    reader.outcome? (count + used) = (reader.outcome? used).map (HeadProgress.after count) := by
  cases phase : reader.phase <;> simp only [outcome?, phase] <;> rfl

theorem outcome?_feedFrom (used : Nat) (reader : HeadReader) (bytes : Bytes) :
    (feedFrom used reader bytes).2.outcome? 0 = (feedFrom used reader bytes).1.again? := by
  fun_induction feedFrom used reader bytes with
  | case1 used reader bytes progress stopped =>
    cases phase : reader.phase with
    | done | failed =>
      simp only [outcome?, phase] at stopped ⊢
      rw [← Option.some.inj stopped]
      rfl
    | line | lineEnd | continuation =>
      rw [outcome?, phase] at stopped
      cases stopped
  | case2 used reader going =>
    have shifted := reader.outcome?_add used 0
    rw [Nat.add_zero, going] at shifted
    exact Option.map_eq_none_iff.1 shifted.symm
  | case3 used reader going byte rest round ih => exact ih

theorem feedFrom_add (count used : Nat) (reader : HeadReader) (bytes : Bytes) :
    feedFrom (count + used) reader bytes =
      ((feedFrom used reader bytes).1.after count, (feedFrom used reader bytes).2) := by
  fun_induction feedFrom used reader bytes with
  | case1 used reader bytes progress stopped =>
    have shifted : reader.outcome? (count + used) = some (progress.after count) := by
      rw [outcome?_add, stopped, Option.map_some]
    rw [feedFrom_over shifted]
  | case2 used reader going =>
    have shifted : reader.outcome? (count + used) = none := by rw [outcome?_add, going, Option.map_none]
    rw [feedFrom_nil shifted]
    rfl
  | case3 used reader going byte rest round ih =>
    have shifted : reader.outcome? (count + used) = none := by rw [outcome?_add, going, Option.map_none]
    rw [feedFrom_cons shifted, Nat.add_assoc, ih]

theorem feed_append_going {first : Bytes} (more : (reader.feed first).1 = .more) (second : Bytes) :
    reader.feed (first ++ second) =
      (((reader.feed first).2.feed second).1.after first.length, ((reader.feed first).2.feed second).2) := by
  have later := feedFrom_add first.length 0 (reader.feed first).2 second
  rw [Nat.add_zero] at later
  refine Eq.trans ?_ later
  rw [feed, feedFrom_append, Nat.zero_add]
  change resume first.length (reader.feed first) second = _
  generalize reader.feed first = found at more ⊢
  obtain ⟨progress, next⟩ := found
  obtain rfl : progress = .more := more
  rfl

theorem feed_append_over {first : Bytes} (stopped : (reader.feed first).1 ≠ .more) (second : Bytes) :
    reader.feed (first ++ second) = reader.feed first := by
  rw [feed, feedFrom_append]
  change resume _ (reader.feed first) second = reader.feed first
  generalize reader.feed first = found at stopped ⊢
  obtain ⟨progress, next⟩ := found
  cases progress with
  | more => exact absurd rfl stopped
  | finished | failed => rfl

/-- Reads pieces one after the other until reading is over. The count of a finished head is
that of all pieces. -/
def feedAll (reader : HeadReader) : List Bytes → HeadProgress × HeadReader
  | [] => (.more, reader)
  | piece :: rest =>
      match reader.feed piece with
      | (.more, next) => ((next.feedAll rest).1.after piece.length, (next.feedAll rest).2)
      | found => found

theorem feedAll_eq (going : reader.outcome? 0 = none) (pieces : List Bytes) :
    reader.feedAll pieces = reader.feed pieces.flatten := by
  induction pieces generalizing reader with
  | nil => exact (feedFrom_nil going).symm
  | cons piece rest ih =>
    have still : (reader.feed piece).2.outcome? 0 = (reader.feed piece).1.again? := outcome?_feedFrom 0 reader piece
    rw [List.flatten_cons, feedAll]
    cases found : reader.feed piece with
    | mk progress next =>
      rw [found] at still
      cases progress with
      | more =>
        rw [feed_append_going (congrArg Prod.fst found), found]
        simp only
        rw [ih still]
      | finished | failed =>
        rw [feed_append_over (by simp [found]), found]

theorem feed_again {bytes : Bytes} (stopped : (reader.feed bytes).1.again? = some progress) (later : Bytes) :
    (reader.feed bytes).2.feed later = (progress, (reader.feed bytes).2) :=
  feedFrom_over ((outcome?_feedFrom 0 reader bytes).trans stopped) later

theorem advance_pos (going : reader.outcome? used = none) (byte : UInt8) (rest : Bytes)
    (done : (reader.advance byte rest).2.phase = .done) : 0 < (reader.advance byte rest).1 := by
  have extended {reader : HeadReader} (run : Bytes) (other : reader.phase ≠ .done) :
      (reader.extend run).phase ≠ .done := by
    unfold extend
    split
    · exact other
    · simp [fail]
  have inLine {part : HeadPart} : HeadPhase.line part ≠ .done := by simp
  unfold advance at done ⊢
  cases phase : reader.phase with
  | done | failed =>
    rw [outcome?, phase] at going
    cases going
  | continuation =>
    simp only [phase] at done
    unfold continueHeader at done
    split at done
    · cases done
    · split at done <;> cases done
  | lineEnd part =>
    simp only [phase, endLine] at done ⊢
    split at done
    next ended =>
      rw [if_pos ended]
      exact Nat.one_pos
    next => exact absurd done (extended _ inLine)
  | line part =>
    simp only [phase, readLine] at done ⊢
    split at done
    next => exact absurd done (extended _ (phase ▸ inLine))
    next => exact absurd done (extended _ (by simp [enter]))

theorem lt_of_finished {bytes : Bytes} {count : Nat} (going : reader.outcome? used = none)
    (finished : (feedFrom used reader bytes).1 = .finished count) : used < count := by
  fun_induction feedFrom used reader bytes with
  | case1 used reader bytes progress stopped =>
    rw [going] at stopped
    cases stopped
  | case2 => cases finished
  | case3 used reader _ byte rest round ih =>
    cases after : round.2.outcome? (used + round.1) with
    | none => exact Nat.lt_of_le_of_lt (Nat.le_add_right ..) (ih after finished)
    | some progress =>
      rw [feedFrom_over after] at finished
      obtain rfl : progress = .finished count := finished
      have done : round.2.phase = .done ∧ used + round.1 = count := by
        cases phase : round.2.phase <;> simp_all [outcome?]
      have some := advance_pos going byte rest done.1
      have sum := done.2
      change used + (reader.advance byte rest).1 = count at sum
      omega

theorem feed_take {bytes : Bytes} {count : Nat} (finished : (reader.feed bytes).1 = .finished count) :
    reader.feed (bytes.take count) = reader.feed bytes := by
  by_cases unfinished : (reader.feed (bytes.take count)).1 = .more
  · have whole := feed_append_going unfinished (bytes.drop count)
    rw [List.take_append_drop] at whole
    have going : (reader.feed (bytes.take count)).2.outcome? 0 = none :=
      (outcome?_feedFrom 0 reader _).trans (congrArg HeadProgress.again? unfinished)
    rw [whole] at finished
    cases later : ((reader.feed (bytes.take count)).2.feed (bytes.drop count)).1 with
    | more | failed =>
      rw [later] at finished
      cases finished
    | finished more =>
      rw [later] at finished
      have sum : (bytes.take count).length + more = count := HeadProgress.finished.inj finished
      have some := lt_of_finished going later
      -- More bytes are taken than the head used, so there were no more.
      have short : bytes.length ≤ count := by
        rw [List.length_take] at sum
        omega
      rw [List.take_of_length_le short]
  · have whole := feed_append_over unfinished (bytes.drop count)
    rw [List.take_append_drop] at whole
    exact whole.symm

/-- However the bytes of a head are cut, reading comes to the same, and stays there once it
is over. -/
theorem cuts_leave_no_trace (first second : List Bytes) (same : first.flatten = second.flatten) :
    feedAll {} first = feedAll {} second ∧
      ∀ later : Bytes,
        (∀ used, (feedAll {} first).1 = .finished used →
          (feedAll {} first).2.feed later = (.finished 0, (feedAll {} first).2)) ∧
        (∀ cause, (feedAll {} first).1 = .failed cause →
          (feedAll {} first).2.feed later = (.failed cause, (feedAll {} first).2)) := by
  have fresh : ({} : HeadReader).outcome? 0 = none := rfl
  rw [feedAll_eq fresh, feedAll_eq fresh, same]
  refine ⟨rfl, fun later => ⟨fun used finished => ?_, fun cause failed => ?_⟩⟩
  · exact feed_again (by rw [finished]; rfl) later
  · exact feed_again (by rw [failed]; rfl) later

/-- A head that is cut inside a line end and before a header goes on in its next line, with
an empty piece on the way. -/
def cutHead : List Bytes :=
  [bytesOf "GET /", [], bytesOf " HTTP/1.1\r", bytesOf "\nsec-websocket-key: ab\r\n",
    bytesOf " c\r\n\r", bytesOf "\nmore"]

theorem cutHead_finished :
    cutHead.flatten = [cutHead.flatten].flatten ∧ feedAll {} cutHead = feedAll {} [cutHead.flatten] ∧
      (feedAll {} cutHead).1 = .finished 45 ∧
      (feedAll {} cutHead).2.feed (bytesOf "GET") = (.finished 0, (feedAll {} cutHead).2) := by
  have whole : cutHead.flatten = [cutHead.flatten].flatten := by decide
  obtain ⟨same, later⟩ := cuts_leave_no_trace cutHead [cutHead.flatten] whole
  have finished : (feedAll {} cutHead).1 = .finished 45 := by decide +kernel
  exact ⟨whole, same, finished, (later _).1 45 finished⟩

end HeadReader

end TileRoom
