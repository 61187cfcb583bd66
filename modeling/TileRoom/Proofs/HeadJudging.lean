import TileRoom.Proofs.HeadFeeding
import TileRoom.Proofs.HeadGrammar

/-! A reader comes to what its bytes come to when they are read as a whole. It reads a line
up to its end, then a request line, then headers that are open until the next line has begun. -/

namespace TileRoom.HeadReader

open Head (Unbroken Verdict certain certain_cons certain_append_cr lineEnd text)

/-- What a reader tells, and what it keeps of a finished head. -/
def verdict : HeadProgress × HeadReader → Option Verdict
  | (.more, _) => some .more
  | (.failed cause, _) => some (.failed cause)
  | (.finished used, reader) =>
      reader.keyHash.map (.finished used ⟨reader.method, reader.target⟩)

theorem of_verdict_finished {found : HeadProgress × HeadReader} {used : Nat} {request : Head.RequestLine}
    {hash : Key.Hash} (read : verdict found = some (.finished used request hash)) :
    found.1 = .finished used ∧ found.2.target = request.target ∧ found.2.keyHash = some hash := by
  obtain ⟨progress, reader⟩ := found
  cases progress with
  | more | failed => cases read
  | finished =>
    obtain ⟨known, keyHash, same⟩ := Option.map_eq_some_iff.1 read
    cases same
    exact ⟨rfl, rfl, keyHash⟩

theorem of_verdict_failed {found : HeadProgress × HeadReader} {cause : HandshakeError}
    (read : verdict found = some (.failed cause)) : found.1 = .failed cause := by
  obtain ⟨progress, reader⟩ := found
  cases progress with
  | more => cases read
  | failed =>
    cases read
    rfl
  | finished =>
    obtain ⟨known, keyHash, same⟩ := Option.map_eq_some_iff.1 read
    cases same

section

variable {reader : HeadReader} {part : HeadPart}

def within (reader : HeadReader) (part : HeadPart) (bytes : Bytes) : HeadReader :=
  { reader with
    phase := if bytes.getLast? = some 0x0D then .lineEnd part else .line part
    line := reader.line ++ certain bytes }

theorem within_cons (byte : UInt8) (rest : Bytes) (inside : byte = 0x0D → rest ≠ []) :
    reader.within part (byte :: rest) =
      { reader with line := reader.line ++ [byte] }.within part rest := by
  have last : (byte :: rest).getLast? = some 0x0D ↔ rest.getLast? = some 0x0D := by
    cases rest with
    | nil => simpa using fun cr => inside cr rfl
    | cons next others => rw [List.getLast?_cons_cons]
  simp only [within, certain_cons byte rest inside, last, List.append_assoc, List.singleton_append]

theorem feedFrom_done (done : reader.phase = .done) (used : Nat) (bytes : Bytes) :
    feedFrom used reader bytes = (.finished used, reader) :=
  feedFrom_over (by rw [outcome?, done]) bytes

theorem feedFrom_failed (used : Nat) (cause : HandshakeError) (bytes : Bytes) :
    feedFrom used (reader.fail cause) bytes = (.failed cause, reader.fail cause) :=
  feedFrom_over rfl bytes

variable (phase : reader.phase = .line part) (fits : reader.line.length ≤ Head.maxLine)

include phase fits

theorem feedFrom_last_cr (used : Nat) :
    feedFrom used reader [0x0D] = (.more, reader.enter (.lineEnd part)) := by
  have nothing : (reader.enter (.lineEnd part)).extend [] = reader.enter (.lineEnd part) := by
    rw [extend, List.append_nil]
    exact if_pos fits
  have read := feedFrom_cr phase used (List.not_mem_nil (a := 0x0D)) []
  rw [List.nil_append, nothing] at read
  exact read.trans (feedFrom_nil rfl)

theorem feedFrom_byte (used : Nat) (byte : UInt8) (rest : Bytes)
    (inside : byte = 0x0D → rest ≠ [] ∧ rest.head? ≠ some 0x0A) :
    ∃ used', feedFrom used reader (byte :: rest) = feedFrom used' (reader.extend [byte]) rest := by
  by_cases cr : byte = 0x0D
  · obtain ⟨more, other⟩ := inside cr
    obtain ⟨next, others, rfl⟩ := List.exists_cons_of_ne_nil more
    have back : (reader.enter (.lineEnd part)).enter (.line part) = reader := by
      rw [← phase]
      rfl
    have read : (reader.enter (.lineEnd part)).advance next others = (0, reader.extend [0x0D]) := by
      change (reader.enter (.lineEnd part)).endLine part next = _
      rw [endLine, if_neg (by simpa using other), back]
    refine ⟨used + [byte].length, ?_⟩
    rw [cr, ← List.singleton_append, feedFrom_append, feedFrom_last_cr phase fits, resume,
      feedFrom_cons rfl, read]
    rfl
  · have plain : 0x0D ∉ [byte] := fun member => cr (List.mem_singleton.1 member).symm
    refine ⟨used + [byte].length, ?_⟩
    rw [← List.singleton_append, feedFrom_append, feedFrom_run phase used plain (List.cons_ne_nil _ _)]
    by_cases room : reader.line.length + [byte].length ≤ Head.maxLine
    · have line : (reader.extend [byte]).phase = .line part := by
        rw [extend, if_pos room]
        exact phase
      rw [feedFrom_nil (outcome?_of_line line _), resume]
    · rw [extend, if_neg room, feedFrom_failed, feedFrom_failed]
      rfl

theorem feedFrom_unbroken (used : Nat) (bytes : Bytes) (unbroken : Unbroken bytes) :
    feedFrom used reader bytes =
      if reader.line.length + (certain bytes).length ≤ Head.maxLine then (.more, reader.within part bytes)
      else (.failed .lineTooLong, reader.fail .lineTooLong) := by
  induction bytes generalizing reader used with
  | nil =>
    have same : reader.within part [] = reader := by
      rw [within, certain, List.append_nil, List.getLast?_nil, if_neg (by simp), ← phase]
    rw [feedFrom_nil (outcome?_of_line phase used), same]
    exact (if_pos fits).symm
  | cons byte rest ih =>
    by_cases last : byte = 0x0D ∧ rest = []
    · obtain ⟨rfl, rfl⟩ := last
      have same : reader.within part [0x0D] = reader.enter (.lineEnd part) := by
        unfold within certain
        rw [if_pos rfl, List.append_nil]
        rfl
      rw [feedFrom_last_cr phase fits, same]
      exact (if_pos fits).symm
    · have more : byte = 0x0D → rest ≠ [] := fun cr none => last ⟨cr, none⟩
      obtain ⟨start, later⟩ := (Head.unbroken_cons_iff _ _).1 unbroken
      have inside : byte = 0x0D → rest ≠ [] ∧ rest.head? ≠ some 0x0A := by
        intro cr
        refine ⟨more cr, fun lf => start ?_⟩
        obtain ⟨others, rfl⟩ := List.head?_eq_some_iff.1 lf
        rw [cr]
        exact ⟨others, rfl⟩
      obtain ⟨used', read⟩ := feedFrom_byte phase fits used byte rest inside
      rw [read, certain_cons byte rest more, List.length_cons, within_cons byte rest more]
      by_cases room : reader.line.length + [byte].length ≤ Head.maxLine
      · have longer : reader.extend [byte] = { reader with line := reader.line ++ [byte] } := if_pos room
        have next := @ih { reader with line := reader.line ++ [byte] } phase
          (by rw [List.length_append]; exact room) used' later
        rw [longer, next, List.length_append, List.length_singleton, Nat.add_right_comm _ 1, Nat.add_assoc]
        rfl
      · rw [extend, if_neg room, feedFrom_failed, if_neg]
        rw [List.length_singleton] at room
        omega

theorem feedFrom_line (used : Nat) (line rest : Bytes) (unbroken : Unbroken line) :
    feedFrom used reader (line ++ lineEnd ++ rest) =
      if reader.line.length + line.length ≤ Head.maxLine then
        feedFrom (used + line.length + 2)
          ({ reader with phase := .lineEnd part, line := reader.line ++ line }.finishLine part) rest
      else (.failed .lineTooLong, reader.fail .lineTooLong) := by
  have parts : line ++ lineEnd ++ rest = (line ++ [0x0D]) ++ 0x0A :: rest := by
    simp only [lineEnd, List.append_assoc, List.cons_append, List.nil_append]
  rw [parts, feedFrom_append, feedFrom_unbroken phase fits used _ unbroken.append_cr, certain_append_cr]
  by_cases room : reader.line.length + line.length ≤ Head.maxLine
  · have before : reader.within part (line ++ [0x0D]) =
        { reader with phase := .lineEnd part, line := reader.line ++ line } := by
      rw [within, certain_append_cr, List.getLast?_concat, if_pos rfl]
    have ended : ({ reader with phase := .lineEnd part, line := reader.line ++ line } : HeadReader).advance 0x0A
        rest = (1, ({ reader with phase := .lineEnd part, line := reader.line ++ line } : HeadReader).finishLine part) :=
      rfl
    rw [if_pos room, if_pos room, before, resume, feedFrom_cons rfl, ended, List.length_append]
    rfl
  · rw [if_neg room, if_neg room]
    rfl

end

/-- Whether reading lines of headers from here comes to what some headers are judged to be. -/
def Judged (used : Nat) (reader : HeadReader) (after : List Bytes) (tail : Bytes) (headers : List Bytes) : Prop :=
  verdict (feedFrom used reader (text after ++ tail)) =
    some (Head.judgeHeaders ⟨reader.method, reader.target⟩ (used + Head.headerLength after) ([] ∈ after) reader.key
      headers)

section

variable {reader : HeadReader} {after : List Bytes} {tail : Bytes}

theorem feedFrom_continuation (phase : reader.phase = .continuation) (used : Nat) (byte : UInt8) (rest : Bytes) :
    feedFrom used reader (byte :: rest) = feedFrom used (reader.continueHeader byte) (byte :: rest) := by
  have going : reader.outcome? used = none := by rw [outcome?, phase]
  have round : reader.advance byte rest = (0, reader.continueHeader byte) := by simp only [advance, phase]
  rw [feedFrom_cons going, round]
  rfl

theorem judged_tail (phase : reader.phase = .line .header) (fits : reader.line.length ≤ Head.maxLine)
    (unbroken : Unbroken tail) (used : Nat) : Judged used reader [] tail [reader.line ++ certain tail] := by
  rw [Judged, text, List.flatMap_nil, List.nil_append, feedFrom_unbroken phase fits used tail unbroken,
    Head.judgeHeaders, List.length_append]
  by_cases room : reader.line.length + (certain tail).length ≤ Head.maxLine
  · rw [if_pos room, if_neg (by omega), if_pos (by simp), verdict]
  · rw [if_neg room, if_pos (by omega), verdict]

theorem judged_line {line : Bytes} (nonempty : line ≠ []) (unbroken : Unbroken line)
    (phase : reader.phase = .line .header) (fits : reader.line.length ≤ Head.maxLine) (used : Nat)
    (later : (reader.line ++ line).length ≤ Head.maxLine →
      Judged (used + line.length + 2) { reader with phase := .continuation, line := reader.line ++ line } after tail
        (Head.joinFrom (reader.line ++ line) (Head.headerLines after tail))) :
    Judged used reader (line :: after) tail
      (Head.joinFrom (reader.line ++ line) (Head.headerLines after tail)) := by
  have same : decide ([] ∈ line :: after) = decide ([] ∈ after) :=
    decide_eq_decide.2 (List.mem_cons.trans (or_iff_right (Ne.symm nonempty)))
  rw [Judged, Head.text_cons, List.append_assoc, feedFrom_line phase fits used line _ unbroken,
    Head.headerLength_cons nonempty, same, ← List.length_append]
  by_cases room : (reader.line ++ line).length ≤ Head.maxLine
  · have ended : ({ reader with phase := .lineEnd .header, line := reader.line ++ line } : HeadReader).endHeader =
        { reader with phase := .continuation, line := reader.line ++ line } :=
      if_pos (List.append_ne_nil_of_right_ne_nil _ nonempty)
    rw [if_pos room, finishLine, ended, ← Nat.add_assoc, ← Nat.add_assoc]
    exact later room
  · rw [if_neg room, Head.judgeHeaders_long (by omega)]
    rfl

theorem judged_end (phase : reader.phase = .line .header) (empty : reader.line = []) (used : Nat) :
    Judged used reader ([] :: after) tail [] := by
  have fits : reader.line.length ≤ Head.maxLine := by
    rw [empty]
    exact Nat.zero_le _
  have length : Head.headerLength ([] :: after) = 2 := by
    rw [Head.headerLength, List.takeWhile_cons_of_neg (by simp)]
    rfl
  have ended : decide ([] ∈ [] :: after) = true := decide_eq_true (List.mem_cons_self ..)
  rw [Judged, Head.text_cons, List.append_assoc, feedFrom_line phase fits used [] _ Head.unbroken_nil, List.length_nil,
    Nat.add_zero, if_pos fits, length, ended, List.append_nil, empty, Head.judgeHeaders, if_pos rfl, finishLine,
    endHeader]
  cases key : reader.key with
  | none => exact congrArg verdict (feedFrom_failed ..)
  | some key => exact congrArg verdict (feedFrom_done rfl _ _)

theorem judged_space {headers : List Bytes} (phase : reader.phase = .continuation) (used : Nat)
    (begun : ∃ rest, text after ++ tail = 0x20 :: rest)
    (read : Judged used (reader.enter (.line .header)) after tail headers) :
    Judged used reader after tail headers := by
  obtain ⟨rest, form⟩ := begun
  rw [Judged, form] at read ⊢
  rw [feedFrom_continuation phase, continueHeader, if_pos rfl]
  exact read

theorem judged_next (phase : reader.phase = .continuation) (fits : reader.line.length ≤ Head.maxLine) (used : Nat)
    (begun : ∃ byte rest, text after ++ tail = byte :: rest ∧ byte ≠ 0x20)
    (atEnd : Head.headerLines after tail = [] → [] ∈ after)
    (next : ∀ line ∈ (Head.headerLines after tail).head?, line.head? ≠ some 0x20)
    (fresh : ∀ key, Judged used { reader with phase := .line .header, line := [], key } after tail
      (Head.joined (Head.headerLines after tail))) :
    Judged used reader after tail (Head.joinFrom reader.line (Head.headerLines after tail)) := by
  obtain ⟨byte, rest, form, other⟩ := begun
  rw [Judged, form, feedFrom_continuation phase, continueHeader, if_neg other, Head.keyAfter_eq,
    Head.judgeHeaders_joinFrom fits _ (fun none => decide_eq_true (atEnd none)) next]
  cases Head.readHeader reader.key reader.line with
  | error cause => exact congrArg verdict (feedFrom_failed ..)
  | ok key =>
    have read := fresh key
    rw [Judged, form] at read
    exact read

theorem judged_tail_fresh (phase : reader.phase = .line .header) (empty : reader.line = []) (unended : Unbroken tail)
    (used : Nat) : Judged used reader [] tail (Head.joined (Head.headerLines [] tail)) := by
  have fits : reader.line.length ≤ Head.maxLine := by rw [empty]; exact Nat.zero_le _
  have read := judged_tail phase fits unended used
  by_cases none : tail = []
  · rw [none] at read ⊢
    rwa [empty] at read
  · rw [Head.headerLines_unended none]
    rwa [empty] at read

theorem judged_tail_open (phase : reader.phase = .continuation) (fits : reader.line.length ≤ Head.maxLine)
    (unended : Unbroken tail) (used : Nat) :
    Judged used reader [] tail (Head.joinFrom reader.line (Head.headerLines [] tail)) := by
  cases tail with
  | nil =>
    have going : reader.outcome? used = none := by rw [outcome?, phase]
    have read : feedFrom used reader (text [] ++ []) = (.more, reader) := feedFrom_nil going
    have headers : Head.joinFrom reader.line (Head.headerLines [] []) = [reader.line] := rfl
    rw [Judged, read, headers, Head.judgeHeaders, if_neg (by omega), if_pos (by simp), verdict]
  | cons byte rest =>
    have begun : text [] ++ byte :: rest = byte :: rest := rfl
    have last := Head.headerLines_unended (List.cons_ne_nil byte rest)
    by_cases space : byte = 0x20
    · have kept : certain (byte :: rest) = byte :: certain rest :=
        certain_cons byte rest fun cr => absurd (space.symm.trans cr) (by decide)
      have header : (reader.enter (.line .header)).phase = .line .header := rfl
      rw [last, kept, Head.joinFrom, if_pos (by rw [space]; rfl), Head.joinFrom, ← kept]
      exact judged_space phase used ⟨rest, by rw [begun, space]⟩ (judged_tail header fits unended used)
    · apply judged_next phase fits used ⟨byte, rest, begun, space⟩
      · rw [last]
        exact fun none => absurd none (List.cons_ne_nil _ _)
      · rw [last]
        intro line member first
        obtain rfl := Option.some.inj member
        exact space (Head.head?_certain first).symm
      · exact fun key => judged_tail_fresh rfl rfl unended used

section

variable {line : Bytes} (unbroken : Unbroken line)
  (later : ∀ used (reader : HeadReader), reader.phase = .continuation → reader.line.length ≤ Head.maxLine →
    Judged used reader after tail (Head.joinFrom reader.line (Head.headerLines after tail)))

include unbroken later

theorem judged_line_fresh (phase : reader.phase = .line .header) (empty : reader.line = []) (used : Nat) :
    Judged used reader (line :: after) tail (Head.joined (Head.headerLines (line :: after) tail)) := by
  by_cases none : line = []
  · rw [none, Head.headerLines_ended]
    exact judged_end phase empty used
  · have fits : reader.line.length ≤ Head.maxLine := by rw [empty]; exact Nat.zero_le _
    have read := judged_line none unbroken phase fits used fun room => later _ _ rfl room
    rw [Head.headerLines_cons none]
    rwa [empty] at read

theorem judged_line_open (phase : reader.phase = .continuation) (fits : reader.line.length ≤ Head.maxLine)
    (used : Nat) :
    Judged used reader (line :: after) tail
      (Head.joinFrom reader.line (Head.headerLines (line :: after) tail)) := by
  by_cases space : line.head? = some 0x20
  · obtain ⟨rest, rfl⟩ := List.head?_eq_some_iff.1 space
    have nonempty : 0x20 :: rest ≠ [] := List.cons_ne_nil _ _
    have begun : text ((0x20 :: rest) :: after) ++ tail = 0x20 :: (rest ++ lineEnd ++ text after ++ tail) := by
      rw [Head.text_cons]
      rfl
    have header : (reader.enter (.line .header)).phase = .line .header := rfl
    rw [Head.headerLines_cons nonempty, Head.joinFrom, if_pos space]
    exact judged_space phase used ⟨_, begun⟩
      (judged_line nonempty unbroken header fits used fun room => later _ _ rfl room)
  · apply judged_next phase fits used
    · cases line with
      | nil => exact ⟨0x0D, _, rfl, by decide⟩
      | cons byte rest => exact ⟨byte, _, rfl, fun same => space (congrArg some same)⟩
    · intro nothing
      by_contra going
      have nonempty : line ≠ [] := fun none => going (none ▸ List.mem_cons_self ..)
      rw [Head.headerLines_cons nonempty] at nothing
      exact List.cons_ne_nil _ _ nothing
    · intro first member
      by_cases none : line = []
      · rw [none, Head.headerLines_ended] at member
        cases member
      · rw [Head.headerLines_cons none] at member
        obtain rfl := Option.some.inj member
        exact space
    · exact fun key => judged_line_fresh unbroken later rfl rfl used

end

theorem judged_open (after : List Bytes) (each : ∀ line ∈ after, Unbroken line) (unended : Unbroken tail) (used : Nat)
    (reader : HeadReader) (phase : reader.phase = .continuation) (fits : reader.line.length ≤ Head.maxLine) :
    Judged used reader after tail (Head.joinFrom reader.line (Head.headerLines after tail)) := by
  induction after generalizing used reader with
  | nil => exact judged_tail_open phase fits unended used
  | cons line after ih =>
    obtain ⟨unbroken, others⟩ := List.forall_mem_cons.1 each
    exact judged_line_open unbroken (ih others) phase fits used

theorem judged_headers (after : List Bytes) (each : ∀ line ∈ after, Unbroken line) (unended : Unbroken tail)
    (used : Nat) (phase : reader.phase = .line .header) (empty : reader.line = []) :
    Judged used reader after tail (Head.joined (Head.headerLines after tail)) := by
  cases after with
  | nil => exact judged_tail_fresh phase empty unended used
  | cons line after =>
    obtain ⟨unbroken, others⟩ := List.forall_mem_cons.1 each
    exact judged_line_fresh unbroken (judged_open after others unended) phase empty used

theorem verdict_lines (lines : List Bytes) (each : ∀ line ∈ lines, Unbroken line) (unended : Unbroken tail)
    (skipped : List Bytes) :
    verdict (feedFrom (text skipped).length {} (text lines ++ tail)) =
      some (Head.judgeRequest (skipped ++ lines.takeWhile (· = [])) tail (lines.dropWhile (· = []))) := by
  have phase : ({} : HeadReader).phase = .line .request := rfl
  have fits : ({} : HeadReader).line.length ≤ Head.maxLine := Nat.zero_le _
  induction lines generalizing skipped with
  | nil =>
    have read := feedFrom_unbroken phase fits (text skipped).length tail unended
    have none : text [] ++ tail = tail := rfl
    rw [none, read, List.length_nil, Nat.zero_add, List.dropWhile_nil, Head.judgeRequest]
    by_cases room : (certain tail).length ≤ Head.maxLine
    · rw [if_pos room, if_neg (by omega), verdict]
    · rw [if_neg room, if_pos (by omega), verdict]
  | cons line after ih =>
    obtain ⟨unbroken, others⟩ := List.forall_mem_cons.1 each
    rw [Head.text_cons, List.append_assoc, feedFrom_line phase fits _ line _ unbroken, List.length_nil, Nat.zero_add,
      List.nil_append]
    by_cases empty : line = []
    · have here : ([] : Bytes).length ≤ Head.maxLine := Nat.zero_le _
      have rest := ih others (skipped ++ [[]])
      rw [List.append_assoc] at rest
      rw [empty, if_pos here, ← Head.text_concat_length, List.takeWhile_cons_of_pos (by simp),
        List.dropWhile_cons_of_pos (by simp)]
      exact rest
    · rw [List.takeWhile_cons_of_neg (by simpa using empty), List.dropWhile_cons_of_neg (by simpa using empty),
        List.append_nil, Head.judgeRequest]
      by_cases room : line.length ≤ Head.maxLine
      · rw [if_pos room, if_neg (by omega), ← Head.text_concat_length, finishLine, endRequestLine, if_neg empty,
          Head.requestLine_eq]
        cases Head.readRequest line with
        | error cause => exact congrArg verdict (feedFrom_failed ..)
        | ok request => exact judged_headers after others unended _ rfl rfl
      · rw [if_neg room, if_pos (by omega)]
        rfl

end

/-- A fresh reader comes to what the bytes come to when they are read as a whole. -/
theorem feed_judged (data : Bytes) : verdict (({} : HeadReader).feed data) = some (Head.judge data) := by
  obtain ⟨each, unended, whole⟩ := Head.lines_spec data
  have read := verdict_lines (Head.lines data).1 each unended []
  rw [← whole] at read
  exact read

end TileRoom.HeadReader
