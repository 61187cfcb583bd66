import Mathlib.Data.List.Infix
import TileRoom.Handshake.HeadReader
import TileRoom.Proofs.HeadReading
import TileRoom.Proofs.Text.Forms

/-! What the head of a request comes to, read off all of its bytes: lines first, then the
request line, then headers with the lines that continue them. -/

namespace TileRoom.Head

def lineEnd : Bytes := [0x0D, 0x0A]

/-- The lines that have ended, each at the first CR LF after the line before it, and the
bytes behind them. -/
def lines (data : Bytes) : List Bytes × Bytes :=
  match _found : Cut.around? lineEnd data with
  | none => ([], data)
  | some (line, rest) => (line :: (lines rest).1, (lines rest).2)
termination_by data.length
decreasing_by
  all_goals
    have whole := congrArg List.length (Cut.around?_eq_some _found)
    simp only [List.length_append, lineEnd, List.length_cons, List.length_nil] at whole
    omega

def text (lines : List Bytes) : Bytes :=
  lines.flatMap (· ++ lineEnd)

/-- The part of an unfinished line that stays in it whatever follows: a CR at its end may
still end the line. -/
def certain : Bytes → Bytes
  | [] => []
  | [byte] => if byte = 0x0D then [] else [byte]
  | byte :: rest => byte :: certain rest

/-- A header with the lines that continue it, and the headers after it. -/
def joinFrom (header : Bytes) : List Bytes → List Bytes
  | [] => [header]
  | line :: rest =>
      if line.head? = some 0x20 then joinFrom (header ++ line) rest
      else header :: joinFrom line rest

def joined : List Bytes → List Bytes
  | [] => []
  | line :: rest => joinFrom line rest

instance (lines : List Bytes) : Decidable ([] ∈ lines) :=
  inferInstance

/-- The lines of headers: those before the empty line or, as long as it is missing, all of
them and the unfinished one. -/
def headerLines (after : List Bytes) (tail : Bytes) : List Bytes :=
  after.takeWhile (· ≠ []) ++ if [] ∈ after ∨ tail = [] then [] else [certain tail]

def IsVersion (version : Bytes) : Prop :=
  bytesOf "HTTP/1." <+: version ∧ version.drop 7 ≠ [] ∧ ∀ byte ∈ version.drop 7, isDigit byte

instance (version : Bytes) : Decidable (IsVersion version) :=
  inferInstanceAs (Decidable (_ ∧ _ ∧ _))

theorem isVersion_iff (version : Bytes) :
    IsVersion version ↔ version.take 7 = bytesOf "HTTP/1." ∧ version.drop 7 ≠ [] ∧
      (version.drop 7).all isDigit := by
  rw [IsVersion, List.prefix_iff_eq_take, List.all_eq_true]
  exact and_congr_left' eq_comm

def readRequest (line : Bytes) : Except HandshakeError RequestLine :=
  let rest := (line.dropWhile (· ≠ 0x20)).tail
  if line.count 0x20 < 2 then .error .malformed
  else if IsVersion (rest.dropWhile (· ≠ 0x20)).tail then
    .ok ⟨String.ofList (Utf8.decodeLossy (line.takeWhile (· ≠ 0x20))),
      String.ofList (Utf8.decodeLossy (rest.takeWhile (· ≠ 0x20)))⟩
  else .error .unsupportedVersion

/-- Takes up a header; only that of the key counts, in upper or lower case. -/
def readHeader (key : Option Bytes) (header : Bytes) : Except HandshakeError (Option Bytes) :=
  if 0x3A ∉ header then .error .malformed
  else if ¬keyHeader <+: header.map lower then .ok key
  else if key.isSome then .error .severalKeys
  else .ok (some (Blank.trimWhere isBlank (header.drop keyHeader.length)))

inductive Verdict where
  | more
  | failed (cause : HandshakeError)
  | finished (used : Nat) (request : RequestLine) (keyHash : Key.Hash)
deriving DecidableEq

def judgeKey (request : RequestLine) (used : Nat) : Option Bytes → Verdict
  | none => .failed .missingKey
  | some key => .finished used request (Sha1.digest (key ++ bytesOf Key.guid))

/-- Judges the headers in their order. The last one of an unfinished head may still go on, so
only its length is looked at. -/
def judgeHeaders (request : RequestLine) (used : Nat) (ended : Bool) :
    Option Bytes → List Bytes → Verdict
  | key, [] => if ended then judgeKey request used key else .more
  | key, header :: rest =>
      if maxLine < header.length then .failed .lineTooLong
      else if rest = [] ∧ !ended then .more
      else
        match readHeader key header with
        | .error cause => .failed cause
        | .ok key => judgeHeaders request used ended key rest

def headerLength (after : List Bytes) : Nat :=
  (text (after.takeWhile (· ≠ []) ++ [[]])).length

def judgeRequest (skipped : List Bytes) (tail : Bytes) : List Bytes → Verdict
  | [] => if maxLine < (certain tail).length then .failed .lineTooLong else .more
  | line :: after =>
      if maxLine < line.length then .failed .lineTooLong
      else
        match readRequest line with
        | .error cause => .failed cause
        | .ok request =>
            let used := (text (skipped ++ [line])).length + headerLength after
            judgeHeaders request used ([] ∈ after) none (joined (headerLines after tail))

def judgeLines (lines : List Bytes) (tail : Bytes) : Verdict :=
  judgeRequest (lines.takeWhile (· = [])) tail (lines.dropWhile (· = []))

/-- What all of the bytes come to. -/
def judge (data : Bytes) : Verdict :=
  judgeLines (lines data).1 (lines data).2

example : judge (bytesOf "\r\nGET / HTTP/1.1\r\nSec-WebSocket-Key: a\r\n b\r\n\r\nmore") =
    .finished 46 ⟨"GET", "/"⟩ (Sha1.digest (bytesOf "a b258EAFA5-E914-47DA-95CA-C5AB0DC85B11")) := by
  decide +kernel

/-! A header may go on until the next line has begun. -/

example : judge (bytesOf "GET / HTTP/1.1\r\nno colon\r\n") = .more := by decide +kernel

example : judge (bytesOf "GET / HTTP/1.1\r\nno colon\r\n\r") = .failed .malformed := by decide +kernel

def Unbroken (bytes : Bytes) : Prop :=
  ¬lineEnd <:+: bytes

instance (bytes : Bytes) : Decidable (Unbroken bytes) :=
  inferInstanceAs (Decidable ¬_)

theorem unbroken_cons_iff (byte : UInt8) (rest : Bytes) :
    Unbroken (byte :: rest) ↔ ¬lineEnd <+: byte :: rest ∧ Unbroken rest := by
  rw [Unbroken, List.infix_cons_iff, not_or, Unbroken]

theorem unbroken_nil : Unbroken [] := by
  unfold Unbroken lineEnd
  decide

theorem unbroken_of_plain {bytes : Bytes} (plain : 0x0D ∉ bytes) : Unbroken bytes :=
  fun inside => plain (inside.subset (List.mem_cons_self ..))

theorem Unbroken.append_cr {line : Bytes} (unbroken : Unbroken line) : Unbroken (line ++ [0x0D]) := by
  rw [Unbroken, List.infix_concat_iff, not_or]
  refine ⟨fun suffix => ?_, unbroken⟩
  have last := suffix.getLast (by decide)
  rw [List.getLast_append_singleton] at last
  exact absurd last (by decide)

theorem lines_spec (data : Bytes) :
    (∀ line ∈ (lines data).1, Unbroken line) ∧ Unbroken (lines data).2 ∧
      data = text (lines data).1 ++ (lines data).2 := by
  fun_induction lines data with
  | case1 data missing =>
    exact ⟨by simp, Cut.not_infix_of_around?_none missing, rfl⟩
  | case2 data line rest found ih =>
    obtain ⟨each, tail, whole⟩ := ih
    refine ⟨List.forall_mem_cons.2 ⟨?_, each⟩, tail, ?_⟩
    · exact Cut.not_infix_of_around? (by decide) found
    · rw [text, List.flatMap_cons, List.append_assoc, ← text, ← whole]
      exact Cut.around?_eq_some found

theorem certain_cons (byte : UInt8) (rest : Bytes) (inside : byte = 0x0D → rest ≠ []) :
    certain (byte :: rest) = byte :: certain rest := by
  cases rest with
  | nil => exact if_neg fun cr => inside cr rfl
  | cons next others => rfl

theorem certain_append_cr (line : Bytes) : certain (line ++ [0x0D]) = line := by
  induction line with
  | nil => rfl
  | cons byte rest ih => rw [List.cons_append, certain_cons byte _ (by simp), ih]

theorem head?_certain {byte first : UInt8} {rest : Bytes} (found : (certain (byte :: rest)).head? = some first) :
    first = byte := by
  by_cases last : byte = 0x0D ∧ rest = []
  · obtain ⟨rfl, rfl⟩ := last
    cases found
  · rw [certain_cons byte rest fun cr none => last ⟨cr, none⟩] at found
    exact (Option.some.inj found).symm

theorem joinFrom_eq_cons (header : Bytes) (lines : List Bytes) :
    ∃ more rest, joinFrom header lines = (header ++ more) :: rest := by
  induction lines generalizing header with
  | nil => exact ⟨[], [], by rw [joinFrom, List.append_nil]⟩
  | cons line others ih =>
    rw [joinFrom]
    split
    · obtain ⟨more, rest, form⟩ := ih (header ++ line)
      exact ⟨line ++ more, rest, by rw [form, List.append_assoc]⟩
    · exact ⟨[], joinFrom line others, by rw [List.append_nil]⟩

theorem text_cons (line : Bytes) (rest : List Bytes) : text (line :: rest) = line ++ lineEnd ++ text rest := by
  rw [text, List.flatMap_cons, text]

theorem text_concat_length (lines : List Bytes) (line : Bytes) :
    (text (lines ++ [line])).length = (text lines).length + line.length + 2 := by
  rw [text, List.flatMap_append, List.length_append, List.flatMap_singleton, List.length_append, ← text, Nat.add_assoc]
  rfl

theorem headerLength_cons {line : Bytes} (nonempty : line ≠ []) (after : List Bytes) :
    headerLength (line :: after) = line.length + 2 + headerLength after := by
  rw [headerLength, List.takeWhile_cons_of_pos (by simpa using nonempty), List.cons_append, text_cons,
    List.length_append, List.length_append, headerLength]
  rfl

theorem headerLines_cons {line : Bytes} (nonempty : line ≠ []) (after : List Bytes) (tail : Bytes) :
    headerLines (line :: after) tail = line :: headerLines after tail := by
  have same : [] ∈ line :: after ↔ [] ∈ after := by
    rw [List.mem_cons]
    exact or_iff_right (Ne.symm nonempty)
  simp only [headerLines, same]
  rw [List.takeWhile_cons_of_pos (by simpa using nonempty), List.cons_append]

theorem headerLines_ended (after : List Bytes) (tail : Bytes) : headerLines ([] :: after) tail = [] := by
  rw [headerLines, List.takeWhile_cons_of_neg (by simp), if_pos (.inl (List.mem_cons_self ..))]
  rfl

theorem headerLines_unended {tail : Bytes} (nonempty : tail ≠ []) : headerLines [] tail = [certain tail] := by
  rw [headerLines, if_neg (by simp [nonempty])]
  rfl

section

variable {request : RequestLine} {used : Nat} {ended : Bool} {key : Option Bytes}

theorem judgeHeaders_long {header : Bytes} (long : maxLine < header.length) (lines : List Bytes) :
    judgeHeaders request used ended key (joinFrom header lines) = .failed .lineTooLong := by
  obtain ⟨more, rest, form⟩ := joinFrom_eq_cons header lines
  rw [form, judgeHeaders, if_pos]
  rw [List.length_append]
  omega

theorem judgeHeaders_joinFrom {header : Bytes} (fits : header.length ≤ maxLine) (lines : List Bytes)
    (atEnd : lines = [] → ended = true) (next : ∀ line ∈ lines.head?, line.head? ≠ some 0x20) :
    judgeHeaders request used ended key (joinFrom header lines) =
      match readHeader key header with
      | .error cause => .failed cause
      | .ok key => judgeHeaders request used ended key (joined lines) := by
  cases lines with
  | nil =>
    rw [joinFrom, judgeHeaders, if_neg (by omega), if_neg (by simp [atEnd rfl])]
    rfl
  | cons line rest =>
    obtain ⟨more, others, form⟩ := joinFrom_eq_cons line rest
    rw [joinFrom, if_neg (next line rfl), judgeHeaders, if_neg (by omega), if_neg (by rw [form]; simp)]
    rfl

end

theorem requestLine_eq (line : Bytes) : requestLine line = readRequest line := by
  by_cases method : (0x20 : UInt8) ∈ line
  · obtain ⟨before, rest, rfl, first⟩ := List.eq_append_cons_of_mem method
    by_cases target : (0x20 : UInt8) ∈ rest
    · obtain ⟨between, version, rfl, second⟩ := List.eq_append_cons_of_mem target
      have two : ¬List.count 0x20 (before ++ 0x20 :: (between ++ 0x20 :: version)) < 2 := by
        simp only [List.count_append, List.count_cons_self]
        omega
      simp only [requestLine, readRequest, Cut.first?_append _ _ first, Cut.first?_append _ _ second, if_neg two,
        Cut.takeWhile_ne_append _ _ first, Cut.dropWhile_ne_append _ _ first, List.tail_cons,
        Cut.takeWhile_ne_append _ _ second, Cut.dropWhile_ne_append _ _ second, isVersion_iff]
    · have one : List.count 0x20 (before ++ 0x20 :: rest) < 2 := by
        rw [List.count_append, List.count_cons_self, List.count_eq_zero_of_not_mem first,
          List.count_eq_zero_of_not_mem target]
        omega
      simp only [requestLine, readRequest, Cut.first?_append _ _ first, Cut.first?_plain _ target, if_pos one]
  · have none : List.count 0x20 line < 2 := by
      rw [List.count_eq_zero_of_not_mem method]
      omega
    simp only [requestLine, readRequest, Cut.first?_plain _ method, if_pos none]

theorem keyAfter_eq (key : Option Bytes) (header : Bytes) : keyAfter key header = readHeader key header := by
  have start : (header.take keyHeader.length).map lower = keyHeader ↔ keyHeader <+: header.map lower := by
    rw [List.prefix_iff_eq_take, List.map_take]
    exact eq_comm
  unfold keyAfter readHeader
  simp only [ne_eq, start]
  cases key <;> rfl

end TileRoom.Head
