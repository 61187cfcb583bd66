import TileRoom.Proofs.ChunkFeeding
import TileRoom.Proofs.Text.Decoding
import TileRoom.Proofs.Text.Spelling
import TileRoom.Proofs.Text.Trimming

/-! The grammar of a chunked body, and that a reader completes exactly its bodies. Sizes are meant to
be digits only; one plus sign before the digits is read as well, so the grammar takes the
numerals of sizes as a parameter. -/

namespace TileRoom.Chunk

def Unsigned (numeral : List Char) (size : Nat) : Prop :=
  numeral.length ≤ 8 ∧ Numeral.Spells 16 numeral size

/-- A numeral after a plus sign, which counts among the eight characters. -/
def Signed (numeral : List Char) (size : Nat) : Prop :=
  ∃ digits, numeral = '+' :: digits ∧ numeral.length ≤ 8 ∧ Numeral.Spells 16 digits size

def Readable (numeral : List Char) (size : Nat) : Prop :=
  Unsigned numeral size ∨ Signed numeral size

def Line (line : Bytes) : Prop :=
  line.length ≤ 64 ∧ 0x0A ∉ line

def EmptyLine (line : Bytes) : Prop :=
  line = [] ∨ line = [0x0D]

instance (line : Bytes) : Decidable (EmptyLine line) :=
  inferInstanceAs (Decidable (_ ∨ _))

variable (Sizes : List Char → Nat → Prop)

/-- A numeral with blanks around it, and after a semicolon anything. -/
def SizeText (size : Nat) (text : Bytes) : Prop :=
  ∃ left numeral right extension, text = Utf8.encode (left ++ numeral ++ right) ++ extension ∧
    (∀ c ∈ left ++ right, Blank.isBlank c = true) ∧ (∀ first ∈ extension.head?, first = 0x3B) ∧ Sizes numeral size

def SizeLine (size : Nat) (line : Bytes) : Prop :=
  Line line ∧ ∃ text, (line = text ∨ line = text ++ [0x0D]) ∧ SizeText Sizes size text

inductive Chunks : Bytes → List Bytes → Prop where
  | none : Chunks [] []
  | next {line payload rest : Bytes} {payloads : List Bytes} : SizeLine Sizes payload.length line → payload ≠ [] →
      Chunks rest payloads → Chunks (line ++ 0x0A :: (payload ++ 0x0D :: 0x0A :: rest)) (payload :: payloads)

inductive Trailer : Bytes → Prop where
  | last {line : Bytes} : EmptyLine line → Trailer (line ++ [0x0A])
  | next {line rest : Bytes} : Line line → ¬EmptyLine line → Trailer rest → Trailer (line ++ 0x0A :: rest)

/-- Chunks, a size of zero and a trailer. -/
inductive Body : Bytes → List Bytes → Prop where
  | mk {chunks line trailer : Bytes} {payloads : List Bytes} : Chunks Sizes chunks payloads →
      SizeLine Sizes 0 line → Trailer trailer → Body (chunks ++ (line ++ 0x0A :: trailer)) payloads

variable {Sizes}

theorem Body.next {line payload body : Bytes} {payloads : List Bytes} (made : Body Sizes body payloads)
    (sized : SizeLine Sizes payload.length line) (nonempty : payload ≠ []) :
    Body Sizes (line ++ 0x0A :: (payload ++ 0x0D :: 0x0A :: body)) (payload :: payloads) := by
  cases made with
  | mk chunks last trailer =>
    have longer := Body.mk (.next sized nonempty chunks) last trailer
    simpa using longer

/-- After whole chunks with unsigned sizes stands a line with a signed one. -/
def MeetsSigned (bytes : Bytes) : Prop :=
  ∃ front heard line size after, bytes = front ++ (line ++ 0x0A :: after) ∧ Chunks Unsigned front heard ∧
    SizeLine Signed size line

theorem Body.begins {body : Bytes} {payloads : List Bytes} (made : Body Sizes body payloads) :
    ∃ size line rest, body = line ++ 0x0A :: rest ∧ SizeLine Sizes size line := by
  obtain ⟨chunks, last, -⟩ := made
  cases chunks with
  | none => exact ⟨0, _, _, rfl, last⟩
  | next sized => exact ⟨_, _, _, List.append_assoc .., sized⟩

theorem SizeLine.readable {size : Nat} {line : Bytes} (sized : SizeLine Unsigned size line) :
    SizeLine Readable size line := by
  obtain ⟨whole, text, form, left, numeral, right, extension, parts, blank, marked, known⟩ := sized
  exact ⟨whole, text, form, left, numeral, right, extension, parts, blank, marked, .inl known⟩

theorem SizeLine.unsigned_or_signed {size : Nat} {line : Bytes} (sized : SizeLine Readable size line) :
    SizeLine Unsigned size line ∨ SizeLine Signed size line := by
  obtain ⟨whole, text, form, left, numeral, right, extension, parts, blank, marked, known⟩ := sized
  exact known.imp (fun here => ⟨whole, text, form, left, numeral, right, extension, parts, blank, marked, here⟩)
    fun here => ⟨whole, text, form, left, numeral, right, extension, parts, blank, marked, here⟩

theorem SizeLine.plus_mem {size : Nat} {line : Bytes} (sized : SizeLine Signed size line) : 0x2B ∈ line := by
  obtain ⟨-, text, form, left, numeral, right, extension, rfl, -, -, digits, rfl, -⟩ := sized
  have sign : 0x2B ∈ Utf8.encode (left ++ '+' :: digits ++ right) ++ extension := by
    apply List.mem_append_left
    exact List.mem_flatMap.2 ⟨'+', by simp, by decide⟩
  rcases form with rfl | rfl
  · exact sign
  · exact List.mem_append_left _ sign

theorem SizeLine.not_plus_mem {size : Nat} {line : Bytes} (sized : SizeLine Unsigned size line) (bare : 0x3B ∉ line) :
    0x2B ∉ line := by
  obtain ⟨-, text, form, left, numeral, right, extension, rfl, blank, marked, -, spells⟩ := sized
  have unextended : extension = [] := by
    cases extension with
    | nil => rfl
    | cons first rest =>
      obtain rfl := marked first rfl
      rcases form with rfl | rfl <;> simp at bare
  have plain : '+' ∉ left ++ numeral ++ right := by
    intro member
    by_cases inner : '+' ∈ numeral
    · exact absurd (spells.isDigit _ inner) (by decide)
    · exact absurd (blank '+' (by simpa [inner] using member)) (by decide)
  have apart : 0x2B ∉ Utf8.encode (left ++ numeral ++ right) := Utf8.not_mem_encode (by decide) plain
  rcases form with rfl | rfl <;> simpa [unextended] using apart

theorem not_meetsSigned {bytes : Bytes} (plain : 0x2B ∉ bytes) : ¬MeetsSigned bytes := by
  rintro ⟨front, heard, line, size, after, rfl, -, sized⟩
  exact plain (List.mem_append_right _ (List.mem_append_left _ sized.plus_mem))

theorem MeetsSigned.behind {line payload rest : Bytes} (sized : SizeLine Unsigned payload.length line)
    (nonempty : payload ≠ []) (later : MeetsSigned rest) :
    MeetsSigned (line ++ 0x0A :: (payload ++ 0x0D :: 0x0A :: rest)) := by
  obtain ⟨front, heard, signed, size, after, rfl, chunks, found⟩ := later
  exact ⟨_, payload :: heard, signed, size, after, by simp, .next sized nonempty chunks, found⟩

theorem Chunks.unsigned {chunks : Bytes} {payloads : List Bytes} (made : Chunks Readable chunks payloads) {rest : Bytes}
    (plain : ¬MeetsSigned (chunks ++ rest)) : Chunks Unsigned chunks payloads := by
  induction made with
  | none => exact .none
  | @next line payload others payloads sized nonempty _ ih =>
    have here : SizeLine Unsigned payload.length line := by
      refine sized.unsigned_or_signed.resolve_right fun signed => plain ?_
      exact ⟨[], [], line, _, payload ++ 0x0D :: 0x0A :: (others ++ rest), by simp, .none, signed⟩
    refine .next here nonempty (ih fun later => plain ?_)
    simpa using later.behind here nonempty

theorem Body.unsigned {body : Bytes} {payloads : List Bytes} (made : Body Readable body payloads) {rest : Bytes}
    (plain : ¬MeetsSigned (body ++ rest)) : Body Unsigned body payloads := by
  cases made with
  | @mk chunks line trailer payloads made sized ended =>
    have whole : chunks ++ (line ++ 0x0A :: trailer) ++ rest = chunks ++ (line ++ 0x0A :: (trailer ++ rest)) := by simp
    rw [whole] at plain
    have each := made.unsigned plain
    refine .mk each (sized.unsigned_or_signed.resolve_right fun signed => plain ?_) ended
    exact ⟨chunks, payloads, line, 0, trailer ++ rest, rfl, each, signed⟩

theorem Chunks.readable {chunks : Bytes} {payloads : List Bytes} (made : Chunks Unsigned chunks payloads) :
    Chunks Readable chunks payloads := by
  induction made with
  | none => exact .none
  | next sized nonempty _ ih => exact .next sized.readable nonempty ih

theorem Body.readable {body : Bytes} {payloads : List Bytes} (made : Body Unsigned body payloads) :
    Body Readable body payloads := by
  cases made with
  | mk chunks last trailer => exact .mk chunks.readable last.readable trailer

end TileRoom.Chunk

namespace TileRoom.ChunkReader

open Chunk

theorem readable_iff (numeral : List Char) (size : Nat) :
    Readable numeral size ↔
      Numeral.readBelow? 16 UInt64.size numeral = some size ∧ numeral.length ≤ maxDigits := by
  have word : 16 ^ 8 ≤ UInt64.size := by decide
  simp only [Numeral.readBelow?, Option.filter_eq_some_iff, decide_eq_true_eq, Numeral.value?_eq_some_iff]
  constructor
  · rintro (⟨few, spells⟩ | ⟨digits, rfl, few, spells⟩)
    · rw [spells.dropPlus]
      have bound := spells.lt (by omega)
      have most := Nat.pow_le_pow_right (show 0 < 16 by omega) few
      exact ⟨⟨spells, by omega⟩, few⟩
    · have bound := spells.lt (by omega)
      rw [List.length_cons] at few
      have most := Nat.pow_le_pow_right (show 0 < 16 by omega) (show digits.length ≤ 8 by omega)
      exact ⟨⟨spells, by omega⟩, few⟩
  · rintro ⟨⟨spells, -⟩, few⟩
    unfold Numeral.dropPlus at spells
    split at spells
    · exact .inr ⟨_, rfl, few, spells⟩
    · exact .inl ⟨few, spells⟩

theorem readable_plain {numeral : List Char} {size : Nat} (readable : Readable numeral size) :
    ∀ c ∈ numeral, Blank.isBlank c = false ∧ c ≠ ';' := by
  have digit {c : Char} (isDigit : (Numeral.digitValue? 16 c).isSome = true) : Blank.isBlank c = false ∧ c ≠ ';' := by
    refine ⟨Numeral.isBlank_of_digit isDigit, ?_⟩
    rintro rfl
    exact absurd isDigit (by decide)
  rcases readable with ⟨-, spells⟩ | ⟨digits, rfl, -, spells⟩
  · exact fun c member => digit (spells.isDigit c member)
  · exact List.forall_mem_cons.2 ⟨by decide, fun c member => digit (spells.isDigit c member)⟩

section

variable {left numeral right : List Char} {size : Nat} (readable : Readable numeral size)
  (blank : ∀ c ∈ left ++ right, Blank.isBlank c = true)

include readable blank

theorem readable_unmarked : ';' ∉ left ++ numeral ++ right := by
  have visible : Blank.isBlank ';' = false := by decide
  intro member
  by_cases inner : ';' ∈ numeral
  · exact (readable_plain readable _ inner).2 rfl
  · rw [blank ';' (by simpa [inner] using member)] at visible
    cases visible

theorem trim_readable : Blank.trim (left ++ numeral ++ right) = numeral := by
  obtain ⟨before, after⟩ := List.forall_mem_append.1 blank
  refine Blank.trimWhere_between before after ⟨fun first there => ?_, fun last there => ?_⟩
  · exact (readable_plain readable first (List.mem_of_mem_head? there)).1
  · exact (readable_plain readable last (List.mem_of_mem_getLast? there)).1

end

theorem trim_append_cr (text : List Char) : Blank.trim (text ++ ['\r']) = Blank.trim text := by
  obtain ⟨left, right, whole, before, after, trimmed⟩ := Blank.trimWhere_parts Blank.isBlank text
  have longer : text ++ ['\r'] = left ++ Blank.trim text ++ (right ++ ['\r']) := by
    rw [← List.append_assoc, Blank.trim, ← whole]
  rw [longer]
  exact Blank.trimWhere_between before (List.forall_mem_append.2 ⟨after, by decide⟩) trimmed

theorem sizeIn_append_cr (line : Bytes) : sizeIn (line ++ [0x0D]) = sizeIn line := by
  by_cases marked : 0x3B ∈ line
  · obtain ⟨front, rest, rfl, plain⟩ := List.eq_append_cons_of_mem marked
    have cut := Cut.takeWhile_ne_append front rest plain
    have same := Cut.takeWhile_ne_append front (rest ++ [0x0D]) plain
    rw [List.append_assoc, List.cons_append, sizeIn, sizeIn, cut, same]
  · have each : ∀ byte ∈ line, decide (byte ≠ 0x3B) = true :=
      fun byte member => decide_eq_true fun same => marked (same ▸ member)
    have text := Utf8.decode?_append_ascii line [] (show (0x0D : UInt8).toNat < 0x80 by decide)
    have cr : Utf8.decode? [0x0D] = some ['\r'] := by decide
    rw [sizeIn, sizeIn, List.takeWhile_append_of_pos each, List.takeWhile_cons_of_pos (by decide), List.takeWhile_nil,
      List.takeWhile_eq_self_iff.2 each, text, cr]
    cases Utf8.decode? line with
    | none => rfl
    | some before => simp only [Option.bind_some, trim_append_cr]

theorem withoutCr_spec (line : Bytes) : line = withoutCr line ∨ line = withoutCr line ++ [0x0D] := by
  unfold withoutCr
  split
  · rename_i last
    exact .inr (List.dropLast_append_getLast? _ last).symm
  · exact .inl rfl

theorem sizeIn_withoutCr (line : Bytes) : sizeIn (withoutCr line) = sizeIn line := by
  rcases withoutCr_spec line with same | longer
  · rw [← same]
  · exact (sizeIn_append_cr _).symm.trans (congrArg sizeIn longer.symm)

theorem takeWhile_encode {text : List Char} {extension : Bytes} (plain : ';' ∉ text)
    (marked : ∀ first ∈ extension.head?, first = 0x3B) :
    (Utf8.encode text ++ extension).takeWhile (· ≠ 0x3B) = Utf8.encode text := by
  have apart : 0x3B ∉ Utf8.encode text := Utf8.not_mem_encode (by decide) plain
  cases extension with
  | nil =>
    rw [List.append_nil, List.takeWhile_eq_self_iff]
    exact fun byte member => decide_eq_true fun same => apart (same ▸ member)
  | cons first rest =>
    obtain rfl := marked first rfl
    exact Cut.takeWhile_ne_append _ rest apart

theorem sizeIn_eq_ok_iff (line : Bytes) (size : Nat) : sizeIn line = .ok size ↔ SizeText Readable size line := by
  constructor
  · intro read
    rw [sizeIn] at read
    split at read
    · cases read
    rename_i text found
    dsimp only at read
    obtain ⟨left, right, whole, before, after, -⟩ := Blank.trimWhere_parts Blank.isBlank text
    refine ⟨left, Blank.trim text, right, line.dropWhile (· ≠ 0x3B), ?_, List.forall_mem_append.2 ⟨before, after⟩, ?_, ?_⟩
    · rw [Blank.trim, ← whole, ← Utf8.decode?_eq_some_iff.1 found, List.takeWhile_append_dropWhile]
    · intro first there
      simpa using Blank.head?_dropWhile _ line first there
    · rw [readable_iff]
      split at read
      · rename_i value number
        split at read
        · rename_i few
          obtain rfl := Except.ok.inj read
          exact ⟨number, few⟩
        · cases read
      · cases read
  · rintro ⟨left, numeral, right, extension, rfl, blank, marked, readable⟩
    obtain ⟨number, few⟩ := (readable_iff numeral size).1 readable
    have plain := readable_unmarked readable blank
    rw [sizeIn, takeWhile_encode plain marked, Utf8.decode?_encode]
    simp only [trim_readable readable blank, number, if_pos few]

theorem sizeLine_iff (size : Nat) (line : Bytes) : SizeLine Readable size line ↔ Line line ∧ sizeIn line = .ok size := by
  constructor
  · rintro ⟨whole, text, form, sized⟩
    refine ⟨whole, ?_⟩
    rw [← sizeIn_eq_ok_iff] at sized
    rcases form with rfl | rfl
    · exact sized
    · rwa [sizeIn_append_cr]
  · rintro ⟨whole, read⟩
    exact ⟨whole, line, .inl rfl, (sizeIn_eq_ok_iff line size).1 read⟩

def afterSize (size : Nat) : ChunkReader :=
  { phase := if size = 0 then .trailer else .data (size - 1) }

theorem scan_size_line {line : Bytes} (plain : 0x0A ∉ line) (rest : Bytes) :
    ({} : ChunkReader).scan (line ++ 0x0A :: rest) =
      if maxLine < line.length then .error .sizeLineTooLong
      else match sizeIn line with
        | .error cause => .error cause
        | .ok size => (afterSize size).scan rest := by
  rw [scan_line_end (.inl rfl) plain, List.length_nil, Nat.zero_add, List.nil_append]
  split
  · rfl
  · change resume (endSize { line }).scanned rest = _
    simp only [endSize, sizeIn_withoutCr]
    cases sizeIn line with
    | error cause => rfl
    | ok size => cases size <;> exact resume_none ..

theorem scan_sizeLine_ok {line : Bytes} {size : Nat} (sized : SizeLine Readable size line) (rest : Bytes) :
    ({} : ChunkReader).scan (line ++ 0x0A :: rest) = (afterSize size).scan rest := by
  obtain ⟨whole, read⟩ := (sizeLine_iff size line).1 sized
  have short : ¬maxLine < line.length := Nat.not_lt.2 whole.1
  rw [scan_size_line whole.2, if_neg short, read]

theorem scan_cr_cons (chunk : Bytes) (byte : UInt8) (rest : Bytes) :
    ({ phase := .cr, chunk } : ChunkReader).scan (byte :: rest) =
      if byte = 0x0D then ({ phase := .lf, chunk } : ChunkReader).scan rest else .error .chunkNotEnded := by
  rw [scan_cons]
  simp only [advance, readCr]
  split
  · exact resume_none ..
  · rfl

theorem scan_lf_cons (chunk : Bytes) (byte : UInt8) (rest : Bytes) :
    ({ phase := .lf, chunk } : ChunkReader).scan (byte :: rest) =
      if byte = 0x0A then (({} : ChunkReader).scan rest).map fun found => (chunk :: found.1, found.2)
      else .error .chunkNotEnded := by
  rw [scan_cons]
  simp only [advance, readLf]
  split <;> rfl

theorem scan_payload {payload : Bytes} (nonempty : payload ≠ []) (rest : Bytes) :
    (afterSize payload.length).scan (payload ++ rest) =
      ({ phase := .cr, chunk := payload } : ChunkReader).scan rest := by
  have positive := List.length_pos_iff.2 nonempty
  have phase : (afterSize payload.length).phase = .data (payload.length - 1) := if_neg (by omega)
  exact scan_data_end phase (by omega) rest

theorem scan_payload_ended {payload : Bytes} (nonempty : payload ≠ []) (rest : Bytes) :
    (afterSize payload.length).scan (payload ++ 0x0D :: 0x0A :: rest) =
      (({} : ChunkReader).scan rest).map fun found => (payload :: found.1, found.2) := by
  rw [scan_payload nonempty, scan_cr_cons, if_pos rfl, scan_lf_cons, if_pos rfl]

theorem scan_chunks_append {chunks : Bytes} {payloads : List Bytes} (made : Chunks Readable chunks payloads)
    (rest : Bytes) :
    ({} : ChunkReader).scan (chunks ++ rest) =
      (({} : ChunkReader).scan rest).map fun found => (payloads ++ found.1, found.2) := by
  induction made with
  | none =>
    rw [List.nil_append]
    cases ({} : ChunkReader).scan rest <;> rfl
  | next sized nonempty _ ih =>
    rw [List.append_assoc, List.cons_append, List.append_assoc, List.cons_append, List.cons_append,
      scan_sizeLine_ok sized, scan_payload_ended nonempty, ih]
    cases ({} : ChunkReader).scan rest <;> rfl

theorem withoutCr_eq_nil_iff (line : Bytes) : withoutCr line = [] ↔ EmptyLine line := by
  constructor
  · intro empty
    have form := withoutCr_spec line
    rwa [empty, List.nil_append] at form
  · rintro (rfl | rfl) <;> rfl

theorem scan_trailer_line {line : Bytes} (plain : 0x0A ∉ line) (rest : Bytes) :
    ({ phase := .trailer } : ChunkReader).scan (line ++ 0x0A :: rest) =
      if maxLine < line.length then .error .sizeLineTooLong
      else if EmptyLine line then .ok ([], { phase := .done })
      else ({ phase := .trailer } : ChunkReader).scan rest := by
  rw [scan_line_end (.inr rfl) plain, List.length_nil, Nat.zero_add, List.nil_append]
  split
  · rfl
  · change resume (endTrailer { phase := .trailer, line }).scanned rest = _
    simp only [endTrailer, withoutCr_eq_nil_iff]
    split
    · exact (resume_none ..).trans (scan_done rfl rest)
    · exact resume_none ..

theorem scan_trailer {trailer : Bytes} (made : Trailer trailer) (rest : Bytes) :
    ({ phase := .trailer } : ChunkReader).scan (trailer ++ rest) = .ok ([], { phase := .done }) := by
  induction made with
  | @last line empty =>
    have shape : 0x0A ∉ line ∧ ¬maxLine < line.length := by rcases empty with rfl | rfl <;> decide
    rw [List.append_assoc, List.singleton_append, scan_trailer_line shape.1, if_neg shape.2, if_pos empty]
  | @next line others whole filled _ ih =>
    have short : ¬maxLine < line.length := Nat.not_lt.2 whole.1
    rw [List.append_assoc, List.cons_append, scan_trailer_line whole.2, if_neg short, if_neg filled, ih]

theorem line_ended {reader last : ChunkReader} {bytes : Bytes} {payloads : List Bytes}
    (lined : reader.phase = .size ∨ reader.phase = .trailer) (read : reader.scan bytes = .ok (payloads, last))
    (done : last.phase = .done) : ∃ line rest, bytes = line ++ 0x0A :: rest ∧ 0x0A ∉ line := by
  by_cases ended : 0x0A ∈ bytes
  · exact List.eq_append_cons_of_mem ended
  · rw [scan_line lined ended] at read
    split at read
    · obtain ⟨-, rfl⟩ := Prod.mk.inj (Except.ok.inj read)
      rcases lined with phase | phase <;> exact absurd (phase.symm.trans done) (by decide)
    · cases read

theorem trailer_of_scan {bytes : Bytes} {payloads : List Bytes} {last : ChunkReader}
    (read : ({ phase := .trailer } : ChunkReader).scan bytes = .ok (payloads, last)) (done : last.phase = .done) :
    payloads = [] ∧ ∃ trailer rest, bytes = trailer ++ rest ∧ Trailer trailer := by
  induction length : bytes.length using Nat.strongRecOn generalizing bytes with
  | ind bound ih =>
    obtain ⟨line, rest, rfl, plain⟩ := line_ended (.inr rfl) read done
    rw [scan_trailer_line plain] at read
    split at read
    · cases read
    rename_i short
    split at read
    · rename_i empty
      obtain ⟨rfl, -⟩ := Prod.mk.inj (Except.ok.inj read)
      exact ⟨rfl, line ++ [0x0A], rest, by simp, .last empty⟩
    · rename_i filled
      have shorter : rest.length < bound := by
        rw [← length, List.length_append, List.length_cons]
        omega
      obtain ⟨none, trailer, left, rfl, made⟩ := ih rest.length shorter read rfl
      exact ⟨none, line ++ 0x0A :: trailer, left, by simp, .next ⟨Nat.le_of_not_lt short, plain⟩ filled made⟩

theorem begun {reader last : ChunkReader} {bytes : Bytes} {payloads : List Bytes} (unended : reader.phase ≠ .done)
    (read : reader.scan bytes = .ok (payloads, last)) (done : last.phase = .done) :
    ∃ byte rest, bytes = byte :: rest := by
  cases bytes with
  | nil =>
    rw [scan_nil] at read
    obtain ⟨-, rfl⟩ := Prod.mk.inj (Except.ok.inj read)
    exact absurd done unended
  | cons byte rest => exact ⟨byte, rest, rfl⟩

theorem break_ended {chunk bytes : Bytes} {payloads : List Bytes} {last : ChunkReader}
    (read : ({ phase := .cr, chunk } : ChunkReader).scan bytes = .ok (payloads, last)) (done : last.phase = .done) :
    ∃ rest, bytes = 0x0D :: 0x0A :: rest := by
  obtain ⟨cr, left, rfl⟩ := begun (by simp) read done
  rw [scan_cr_cons] at read
  split at read
  · rename_i first
    obtain ⟨lf, rest, rfl⟩ := begun (by simp) read done
    rw [scan_lf_cons] at read
    split at read
    · rename_i second
      exact ⟨rest, by rw [first, second]⟩
    · cases read
  · cases read

theorem payload_ended {size : Nat} (positive : size ≠ 0) {bytes : Bytes} {payloads : List Bytes} {last : ChunkReader}
    (read : (afterSize size).scan bytes = .ok (payloads, last)) (done : last.phase = .done) :
    ∃ payload rest, bytes = payload ++ 0x0D :: 0x0A :: rest ∧ payload.length = size := by
  have phase : (afterSize size).phase = .data (size - 1) := if_neg positive
  by_cases short : bytes.length ≤ size - 1
  · rw [scan_data phase short] at read
    obtain ⟨-, rfl⟩ := Prod.mk.inj (Except.ok.inj read)
    cases done
  · obtain ⟨payload, left, rfl, length⟩ : ∃ payload left, bytes = payload ++ left ∧ payload.length = size :=
      ⟨_, _, (List.take_append_drop size bytes).symm, by rw [List.length_take]; omega⟩
    rw [scan_data_end phase (by omega)] at read
    obtain ⟨rest, rfl⟩ := break_ended read done
    exact ⟨payload, rest, rfl, length⟩

theorem body_of_scan {bytes : Bytes} {payloads : List Bytes} {last : ChunkReader}
    (read : ({} : ChunkReader).scan bytes = .ok (payloads, last)) (done : last.phase = .done) :
    ∃ body rest, bytes = body ++ rest ∧ Body Readable body payloads := by
  induction length : bytes.length using Nat.strongRecOn generalizing bytes payloads with
  | ind bound ih =>
    obtain ⟨line, rest, rfl, plain⟩ := line_ended (.inl rfl) read done
    rw [scan_size_line plain] at read
    split at read
    · cases read
    rename_i short
    split at read
    · cases read
    rename_i size sized
    have here : SizeLine Readable size line := (sizeLine_iff size line).2 ⟨⟨Nat.le_of_not_lt short, plain⟩, sized⟩
    by_cases zero : size = 0
    · subst zero
      obtain ⟨rfl, trailer, left, rfl, made⟩ := trailer_of_scan read done
      exact ⟨[] ++ (line ++ 0x0A :: trailer), left, by simp, .mk .none here made⟩
    · obtain ⟨payload, left, rfl, rfl⟩ := payload_ended zero read done
      have nonempty : payload ≠ [] := fun empty => zero (by rw [empty]; rfl)
      rw [scan_payload_ended nonempty] at read
      have shorter : left.length < bound := by
        simp only [← length, List.length_append, List.length_cons]
        omega
      cases inner : ({} : ChunkReader).scan left with
      | error cause =>
        rw [inner] at read
        cases read
      | ok found =>
        rw [inner] at read
        obtain ⟨rfl, rfl⟩ := Prod.mk.inj (Except.ok.inj read)
        obtain ⟨body, beyond, rfl, made⟩ := ih left.length shorter inner rfl
        exact ⟨_, beyond, by simp, made.next here nonempty⟩

theorem scan_body {body : Bytes} {payloads : List Bytes} (made : Body Readable body payloads) (rest : Bytes) :
    ({} : ChunkReader).scan (body ++ rest) = .ok (payloads, { phase := .done }) := by
  cases made with
  | mk chunks sized trailer =>
    rw [List.append_assoc, scan_chunks_append chunks, List.append_assoc, List.cons_append, scan_sizeLine_ok sized]
    change (({ phase := .trailer } : ChunkReader).scan _).map _ = _
    rw [scan_trailer trailer, Except.map, List.append_nil]

theorem scan_done_iff (bytes : Bytes) (payloads : List Bytes) :
    (∃ last : ChunkReader, ({} : ChunkReader).scan bytes = .ok (payloads, last) ∧ last.phase = .done) ↔
      ∃ body rest, bytes = body ++ rest ∧ Body Readable body payloads := by
  constructor
  · rintro ⟨last, read, done⟩
    exact body_of_scan read done
  · rintro ⟨body, rest, rfl, made⟩
    exact ⟨_, scan_body made rest, rfl⟩

/-- A reader that was fed bytes has read a body and gives its payloads. -/
def Completes (bytes : Bytes) (payloads : List Bytes) : Prop :=
  (({} : ChunkReader).feed bytes).1 = .ok payloads ∧ (({} : ChunkReader).feed bytes).2.isDone = true

theorem completes_iff (bytes : Bytes) (payloads : List Bytes) :
    Completes bytes payloads ↔ ∃ body rest, bytes = body ++ rest ∧ Body Readable body payloads := by
  rw [← scan_done_iff]
  obtain ⟨result, state⟩ := feed_scan {} bytes
  rw [Completes, result]
  cases read : ({} : ChunkReader).scan bytes with
  | error cause =>
    constructor
    · rintro ⟨same, -⟩
      cases same
    · rintro ⟨last, same, -⟩
      cases same
  | ok found =>
    rw [state found.1 found.2 read]
    constructor
    · rintro ⟨same, done⟩
      exact ⟨found.2, congrArg Except.ok (Prod.ext (Except.ok.inj same) rfl), of_decide_eq_true done⟩
    · rintro ⟨last, same, done⟩
      obtain rfl := Except.ok.inj same
      exact ⟨rfl, decide_eq_true done⟩

/-- A reader completes exactly when a body stands in front of the bytes, and it gives the payloads of its chunks. When
the reader meets no signed size, it is a body with unsigned sizes. -/
theorem bodies_completed (bytes : Bytes) (payloads : List Bytes) :
    (Completes bytes payloads ↔ ∃ body rest, bytes = body ++ rest ∧ Body Readable body payloads) ∧
    (¬MeetsSigned bytes →
      (Completes bytes payloads ↔ ∃ body rest, bytes = body ++ rest ∧ Body Unsigned body payloads)) := by
  refine ⟨completes_iff bytes payloads, fun unsigned => ?_⟩
  rw [completes_iff]
  constructor
  · rintro ⟨body, rest, rfl, made⟩
    exact ⟨body, rest, rfl, made.unsigned unsigned⟩
  · rintro ⟨body, rest, rfl, made⟩
    exact ⟨body, rest, rfl, made.readable⟩

/-- A body with blanks around a size, an extension, a payload that looks like an end, and a trailer. -/
theorem bodies_completed_extended :
    let bytes := bytesOf "\t005 ;last=0\r\n0\r\n\r\n\r\n00\nX-Tail: 1\r\n\nmore"
    ¬MeetsSigned bytes ∧ ∃ body rest, bytes = body ++ rest ∧ Body Unsigned body [bytesOf "0\r\n\r\n"] := by
  intro bytes
  have unsigned : ¬MeetsSigned bytes := not_meetsSigned (by decide +kernel)
  have completes : Completes bytes [bytesOf "0\r\n\r\n"] := by
    constructor <;> decide +kernel
  exact ⟨unsigned, ((bodies_completed bytes _).2 unsigned).1 completes⟩

/-- A size with a plus sign is read, and so a body is completed that is none with unsigned sizes. -/
theorem signed_size_completed :
    let bytes := bytesOf "+1\r\na\r\n0\r\n\r\n"
    Completes bytes [bytesOf "a"] ∧
      ∀ body rest payloads, bytes = body ++ rest → ¬Body Unsigned body payloads := by
  intro bytes
  refine ⟨by constructor <;> decide +kernel, fun body rest payloads whole made => ?_⟩
  obtain ⟨size, line, others, rfl, sized⟩ := made.begins
  have first : line = bytesOf "+1\r" := by
    rw [← Cut.takeWhile_ne_append line (others ++ rest) sized.1.2, ← List.cons_append, ← List.append_assoc, ← whole]
    decide +kernel
  subst first
  exact sized.not_plus_mem (by decide +kernel) (by decide +kernel)

end TileRoom.ChunkReader
