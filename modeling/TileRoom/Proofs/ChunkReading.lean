import TileRoom.Proofs.ChunkGrammar
import TileRoom.Proofs.Text.Blanks

/-! A chunk reader gives back the payloads that were written as chunks, however far the
body has arrived. A chunk is refused exactly when its size takes more digits than a size
line may have, and an empty one ends the body. What is written as chunks is a body of the grammar. -/

namespace TileRoom.ChunkReader

theorem lowerHex_length_le_iff (size : Nat) :
    (Numeral.lowerHex size).length ≤ maxDigits ↔ size < 16 ^ maxDigits :=
  Numeral.lowerHex_length_le size maxDigits (by decide)

theorem encode_lowerHex_length (size : Nat) :
    (Utf8.encode (Numeral.lowerHex size)).length = (Numeral.lowerHex size).length := by
  have digits := (Numeral.spells_lowerHex size).isDigit
  rw [Utf8.encode_ascii _ fun c member => Numeral.ascii_of_digit (digits c member), List.length_map]

theorem sizeIn_lowerHex (size : Nat) :
    (sizeIn (Utf8.encode (Numeral.lowerHex size))).toOption =
      if size < 16 ^ maxDigits then some size else none := by
  have digits := (Numeral.spells_lowerHex size).isDigit
  have plain : ';' ∉ Numeral.lowerHex size := Numeral.not_mem_of_digits (by decide) digits
  have whole : (Utf8.encode (Numeral.lowerHex size) ++ []).takeWhile (· ≠ 0x3B) =
      Utf8.encode (Numeral.lowerHex size) := takeWhile_encode plain nofun
  have trimmed : Blank.trim (Numeral.lowerHex size) = Numeral.lowerHex size :=
    Blank.trim_visible _ fun c member => Numeral.isBlank_of_digit (digits c member)
  have read : Numeral.readBelow? 16 UInt64.size (Numeral.lowerHex size) =
      if size < UInt64.size then some size else none :=
    Numeral.readBelow?_digits Numeral.writes_lowerHex (by omega) size _
  have word : 16 ^ maxDigits ≤ UInt64.size := by decide
  rw [List.append_nil] at whole
  unfold sizeIn
  rw [whole, Utf8.decode?_encode]
  simp only [trimmed, read]
  by_cases fits : size < 16 ^ maxDigits
  · rw [if_pos fits, if_pos (by omega)]
    simp only
    rw [if_pos ((lowerHex_length_le_iff size).2 fits)]
    rfl
  · rw [if_neg fits]
    by_cases short : size < UInt64.size
    · rw [if_pos short]
      simp only
      rw [if_neg fun few => fits ((lowerHex_length_le_iff size).1 few)]
      rfl
    · rw [if_neg short]
      rfl

theorem sizeLine_eq (size : Nat) :
    Chunk.sizeLine size = Utf8.encode (Numeral.lowerHex size) ++ [0x0D] ++ [0x0A] := by
  rw [Chunk.sizeLine, List.append_assoc]
  rfl

theorem not_mem_digits (size : Nat) : 0x0A ∉ Utf8.encode (Numeral.lowerHex size) ++ [0x0D] := by
  have absent : '\n' ∉ Numeral.lowerHex size :=
    Numeral.not_mem_of_digits (by decide) (Numeral.spells_lowerHex size).isDigit
  intro member
  rcases List.mem_append.1 member with digit | last
  · exact Utf8.not_mem_encode (by decide) absent digit
  · exact absurd (List.mem_singleton.1 last) (by decide)

theorem scan_sizeLine (size : Nat) :
    (({} : ChunkReader).scan (Chunk.sizeLine size)).toOption =
      if size < 16 ^ maxDigits then some ([], afterSize size) else none := by
  have read := sizeIn_lowerHex size
  have length : (Utf8.encode (Numeral.lowerHex size) ++ [0x0D]).length = (Numeral.lowerHex size).length + 1 := by
    rw [List.length_append, encode_lowerHex_length]
    rfl
  rw [sizeLine_eq, scan_size_line (not_mem_digits size), sizeIn_append_cr, length]
  by_cases fits : size < 16 ^ maxDigits
  · have few := (lowerHex_length_le_iff size).2 fits
    rw [if_pos fits] at read ⊢
    rw [if_neg (by simp only [maxLine, maxDigits] at few ⊢; omega)]
    cases found : sizeIn (Utf8.encode (Numeral.lowerHex size)) with
    | error cause => rw [found] at read; cases read
    | ok value =>
      rw [found] at read
      obtain rfl := Option.some.inj read
      simp only [scan_nil]
      rfl
  · rw [if_neg fits] at read ⊢
    split
    · rfl
    · cases found : sizeIn (Utf8.encode (Numeral.lowerHex size)) with
      | error cause => rfl
      | ok value => rw [found] at read; cases read

theorem sizeLine_written {size : Nat} (fits : size < 16 ^ maxDigits) :
    Chunk.SizeLine Chunk.Unsigned size (Utf8.encode (Numeral.lowerHex size) ++ [0x0D]) := by
  have few := (lowerHex_length_le_iff size).2 fits
  refine ⟨⟨?_, not_mem_digits size⟩, _, .inr rfl, [], _, [], [], ?_, by simp, by simp, few, Numeral.spells_lowerHex size⟩
  · rw [List.length_append, encode_lowerHex_length, List.length_singleton]
    simp only [maxDigits] at few
    omega
  · simp only [List.append_nil, List.nil_append]

/-- A payload that can be written as a chunk and read again. -/
def Fits (payload : Bytes) : Prop :=
  payload ≠ [] ∧ payload.length < 16 ^ maxDigits

instance (payload : Bytes) : Decidable (Fits payload) :=
  inferInstanceAs (Decidable (_ ∧ _))

theorem fits_iff (payload : Bytes) : Fits payload ↔ payload ≠ [] ∧ payload.length < 2 ^ 32 := by
  have limit : 16 ^ maxDigits = 2 ^ 32 := by decide
  rw [Fits, limit]

theorem scan_unended (payload : Bytes) (fits : Fits payload) :
    ({} : ChunkReader).scan (Chunk.sizeLine payload.length ++ payload ++ [0x0D]) =
      .ok ([], { phase := .lf, chunk := payload }) := by
  have sized := (sizeLine_written fits.2).readable
  rw [sizeLine_eq, List.append_assoc, List.append_assoc, List.singleton_append, scan_sizeLine_ok sized,
    scan_payload fits.1, scan_cr_cons, if_pos rfl, scan_nil]

theorem frame_eq (payload : Bytes) :
    Chunk.frame payload = Chunk.sizeLine payload.length ++ payload ++ [0x0D] ++ [0x0A] := by
  rw [Chunk.frame, List.append_assoc _ [0x0D]]
  rfl

theorem chunks_written {payloads : List Bytes} (fits : ∀ payload ∈ payloads, Fits payload) :
    Chunk.Chunks Chunk.Unsigned (payloads.flatMap Chunk.frame) payloads := by
  induction payloads with
  | nil => exact .none
  | cons payload rest ih =>
    obtain ⟨first, later⟩ := List.forall_mem_cons.1 fits
    have longer := Chunk.Chunks.next (sizeLine_written first.2) first.1 (ih later)
    rw [List.flatMap_cons, frame_eq, sizeLine_eq]
    simpa using longer

theorem body_written {payloads : List Bytes} (fits : ∀ payload ∈ payloads, Fits payload) :
    Chunk.Body Chunk.Unsigned (payloads.flatMap Chunk.frame ++ Chunk.lastChunk) payloads := by
  have zero : Chunk.SizeLine Chunk.Unsigned 0 _ := sizeLine_written (by decide)
  have whole := Chunk.Body.mk (chunks_written fits) zero (.last (.inr rfl))
  rw [Chunk.lastChunk, sizeLine_eq, Chunk.lineBreak]
  simpa using whole

theorem scan_chunks (payloads : List Bytes) (fits : ∀ payload ∈ payloads, Fits payload) :
    ({} : ChunkReader).scan (payloads.flatMap Chunk.frame) = .ok (payloads, {}) := by
  have read := scan_chunks_append (chunks_written fits).readable []
  rw [List.append_nil, scan_nil] at read
  rw [read, Except.map, List.append_nil]

theorem scan_frame (payload : Bytes) (fits : Fits payload) :
    ({} : ChunkReader).scan (Chunk.frame payload) = .ok ([payload], {}) := by
  have read := scan_chunks [payload] (by simpa using fits)
  rwa [List.flatMap_singleton] at read

theorem fits_of_scan {payload : Bytes} (rest : Bytes) {heard : List Bytes} {next : ChunkReader}
    (nonempty : payload ≠ [])
    (scanned : ({} : ChunkReader).scan (Chunk.frame payload ++ rest) = .ok (heard, next)) :
    Fits payload := by
  have size := scan_sizeLine payload.length
  rw [Chunk.frame, List.append_assoc, List.append_assoc] at scanned
  obtain ⟨early, late, middle, first, _, _⟩ := scan_first scanned
  rw [first] at size
  by_cases fits : payload.length < 16 ^ maxDigits
  · exact ⟨nonempty, fits⟩
  · rw [if_neg fits] at size
    cases size

theorem all_fit_of_scan {payloads heard : List Bytes} (rest : Bytes) {next : ChunkReader}
    (nonempty : ∀ payload ∈ payloads, payload ≠ [])
    (scanned : ({} : ChunkReader).scan (payloads.flatMap Chunk.frame ++ rest) = .ok (heard, next)) :
    ∀ payload ∈ payloads, Fits payload := by
  induction payloads generalizing heard next with
  | nil => simp
  | cons payload others ih =>
    rw [List.flatMap_cons, List.append_assoc] at scanned
    have first := fits_of_scan _ (nonempty payload (List.mem_cons_self ..)) scanned
    obtain ⟨late, more, -⟩ := scan_rest (scan_frame payload first) scanned
    have later := ih (fun other member => nonempty other (List.mem_cons_of_mem _ member)) more
    exact List.forall_mem_cons.2 ⟨first, later⟩

theorem scan_part_of_frame {payload data : Bytes} {heard : List Bytes} {next : ChunkReader}
    (nonempty : payload ≠ [])
    (part : data <+: Chunk.sizeLine payload.length ++ payload ++ [0x0D])
    (scanned : ({} : ChunkReader).scan data = .ok (heard, next)) : heard = [] := by
  by_cases fits : payload.length < 16 ^ maxDigits
  · exact scan_silent part (scan_unended payload ⟨nonempty, fits⟩) scanned
  · -- The size line is not read to its end, so there is no line feed in the part.
    have size := scan_sizeLine payload.length
    rw [if_neg fits] at size
    have short : ¬Chunk.sizeLine payload.length <+: data := by
      rintro ⟨rest, rfl⟩
      obtain ⟨early, late, middle, first, _, _⟩ := scan_first scanned
      rw [first] at size
      cases size
    rw [List.append_assoc] at part
    have inside := (List.prefix_or_prefix_of_prefix part (List.prefix_append _ _)).resolve_right short
    rw [sizeLine_eq] at inside short
    rcases List.prefix_concat_iff.1 inside with whole | line
    · exact absurd (whole ▸ List.prefix_refl _) short
    · rw [scan_line (.inl rfl) fun ended => not_mem_digits _ (line.subset ended)] at scanned
      split at scanned
      · exact (Prod.mk.inj (Except.ok.inj scanned)).1.symm
      · cases scanned

/-- However far a body has arrived, what was completed are the first of its payloads. -/
theorem scan_part {payloads heard : List Bytes} {tail data : Bytes} {last next : ChunkReader}
    (nonempty : ∀ payload ∈ payloads, payload ≠ [])
    (ending : ({} : ChunkReader).scan tail = .ok ([], last))
    (part : data <+: payloads.flatMap Chunk.frame ++ tail)
    (scanned : ({} : ChunkReader).scan data = .ok (heard, next)) : heard <+: payloads := by
  induction payloads generalizing data heard with
  | nil =>
    rw [List.flatMap_nil, List.nil_append] at part
    obtain rfl := scan_silent part ending scanned
    exact List.nil_prefix
  | cons payload others ih =>
    obtain ⟨first, later⟩ := List.forall_mem_cons.1 nonempty
    rw [List.flatMap_cons, List.append_assoc] at part
    rcases List.prefix_or_prefix_of_prefix part (List.prefix_append _ _) with inside | beyond
    · rw [frame_eq] at inside
      rcases List.prefix_concat_iff.1 inside with rfl | unended
      · rw [← frame_eq] at scanned
        have fits := fits_of_scan [] first (by rw [List.append_nil]; exact scanned)
        rw [scan_frame payload fits] at scanned
        obtain ⟨rfl, rfl⟩ := Prod.mk.inj (Except.ok.inj scanned)
        exact ⟨others, rfl⟩
      · rw [scan_part_of_frame first unended scanned]
        exact List.nil_prefix
    · obtain ⟨more, rfl⟩ := beyond
      have fits := fits_of_scan _ first scanned
      obtain ⟨late, rest, rfl⟩ := scan_rest (scan_frame payload fits) scanned
      have inner := ih later ((List.prefix_append_right_inj _).1 part) rest
      exact (List.prefix_append_right_inj [payload]).2 inner

theorem lastChunk_eq : Chunk.lastChunk = [0x30, 0x0D, 0x0A, 0x0D, 0x0A] := by
  have zero : Numeral.digits 16 0 = [0] := by
    rw [Numeral.digits]
    simp
  rw [Chunk.lastChunk, Chunk.sizeLine, Numeral.lowerHex, zero]
  rfl

theorem scan_ended {payloads : List Bytes} (fits : ∀ payload ∈ payloads, Fits payload) (rest : Bytes) :
    ({} : ChunkReader).scan (payloads.flatMap Chunk.frame ++ (Chunk.lastChunk ++ rest)) =
      .ok (payloads, { phase := .done }) := by
  rw [← List.append_assoc]
  exact scan_body (body_written fits).readable rest

theorem scan_lastChunk : ({} : ChunkReader).scan Chunk.lastChunk = .ok ([], { phase := .done }) := by
  have read := scan_ended (List.forall_mem_nil Fits) []
  rwa [List.append_nil] at read

/-- The chunk of an empty payload is the end of a body. -/
theorem frame_nil : Chunk.frame [] = Chunk.lastChunk := by
  rw [Chunk.frame, List.append_nil]
  rfl

theorem scan_oversized {payloads : List Bytes} (fits : ∀ payload ∈ payloads, Fits payload) {payload : Bytes}
    (large : ¬payload.length < 16 ^ maxDigits) (rest : Bytes) :
    ∃ cause, ({} : ChunkReader).scan (payloads.flatMap Chunk.frame ++ (Chunk.frame payload ++ rest)) =
      .error cause := by
  have size := scan_sizeLine payload.length
  rw [if_neg large] at size
  cases sized : ({} : ChunkReader).scan (Chunk.sizeLine payload.length) with
  | ok found =>
    rw [sized] at size
    cases size
  | error cause =>
    refine ⟨cause, ?_⟩
    rw [scan_append_ok (scan_chunks payloads fits), Chunk.frame, List.append_assoc, List.append_assoc, scan_append,
      sized]
    rfl

/-- What a reader makes of payloads written as chunks, of the last chunk, and of what follows it. -/
def readBody (payloads : List Bytes) (further : Bytes) : Except ProtocolError (List Bytes) × ChunkReader :=
  ({} : ChunkReader).feed (payloads.flatMap Chunk.frame ++ bytesOf "0\r\n\r\n" ++ further)

/-- Reading a body undoes writing it as chunks. Payloads that are not empty and shorter than 2^32
bytes are given back as they were, whatever follows the last chunk. Of other payloads the first
decides: an empty one ends the body, so the payloads before it are given back, and one of 2^32
bytes or more is refused. -/
theorem chunks_undone (payloads : List Bytes) (further : Bytes) :
    let read := readBody payloads further
    ((∀ payload ∈ payloads, payload ≠ [] ∧ payload.length < 2 ^ 32) →
      read.1 = .ok payloads ∧ read.2.isDone = true) ∧
    ∀ (before : List Bytes) (first : Bytes) (after : List Bytes), payloads = before ++ first :: after →
      (∀ payload ∈ before, payload ≠ [] ∧ payload.length < 2 ^ 32) →
      (first = [] → read.1 = .ok before ∧ read.2.isDone = true) ∧
      (2 ^ 32 ≤ first.length → ∃ cause, read.1 = .error cause) := by
  have last : bytesOf "0\r\n\r\n" = Chunk.lastChunk := lastChunk_eq.symm
  have limit : 16 ^ maxDigits = 2 ^ 32 := by decide
  simp only [readBody, last, List.append_assoc, ← fits_iff]
  obtain ⟨result, state⟩ := feed_scan {} (payloads.flatMap Chunk.frame ++ (Chunk.lastChunk ++ further))
  generalize ({} : ChunkReader).feed _ = read at result state ⊢
  have ended {told : List Bytes}
      (scanned : ({} : ChunkReader).scan (payloads.flatMap Chunk.frame ++ (Chunk.lastChunk ++ further)) =
        .ok (told, { phase := .done })) : read.1 = .ok told ∧ read.2.isDone = true := by
    constructor
    · rw [result, scanned]
      rfl
    · rw [state _ _ scanned]
      rfl
  refine ⟨fun fits => ended (scan_ended fits further), ?_⟩
  rintro before first after rfl fits
  have parts : (before ++ first :: after).flatMap Chunk.frame ++ (Chunk.lastChunk ++ further) =
      before.flatMap Chunk.frame ++
        (Chunk.frame first ++ (after.flatMap Chunk.frame ++ (Chunk.lastChunk ++ further))) := by
    rw [List.flatMap_append, List.flatMap_cons, List.append_assoc, List.append_assoc]
  constructor
  · rintro rfl
    apply ended
    rw [parts, frame_nil]
    exact scan_ended fits _
  · intro large
    rw [← Nat.not_lt, ← limit] at large
    obtain ⟨cause, refused⟩ := scan_oversized fits large (after.flatMap Chunk.frame ++ (Chunk.lastChunk ++ further))
    refine ⟨cause, ?_⟩
    rw [result, parts, refused]
    rfl

def oversized : Bytes :=
  List.replicate (2 ^ 32) 0x30

theorem oversized_length : oversized.length = 2 ^ 32 := by
  rw [oversized, List.length_replicate]

def lookalikes : List Bytes :=
  [bytesOf "0\r\n\r\n", bytesOf "5\r\n"]

/-- Payloads that look like the end of a body and like a size line are given back, by themselves and
before an empty payload, and refused before one that is too large. -/
theorem chunks_undone_of_lookalikes :
    (∀ payload ∈ lookalikes, payload ≠ [] ∧ payload.length < 2 ^ 32) ∧
      ((readBody lookalikes (bytesOf "more")).1 = .ok lookalikes ∧
        (readBody lookalikes (bytesOf "more")).2.isDone = true) ∧
      ((readBody (lookalikes ++ [] :: [bytesOf "hi"]) []).1 = .ok lookalikes ∧
        (readBody (lookalikes ++ [] :: [bytesOf "hi"]) []).2.isDone = true) ∧
      2 ^ 32 ≤ oversized.length ∧ ∃ cause, (readBody (lookalikes ++ oversized :: []) []).1 = .error cause := by
  have fits : ∀ payload ∈ lookalikes, payload ≠ [] ∧ payload.length < 2 ^ 32 := by decide
  have large : 2 ^ 32 ≤ oversized.length := Nat.le_of_eq oversized_length.symm
  refine ⟨fits, (chunks_undone lookalikes (bytesOf "more")).1 fits, ?_, large, ?_⟩
  · exact ((chunks_undone (lookalikes ++ [] :: [bytesOf "hi"]) []).2 lookalikes [] [bytesOf "hi"] rfl fits).1 rfl
  · exact ((chunks_undone (lookalikes ++ oversized :: []) []).2 lookalikes oversized [] rfl fits).2 large

end TileRoom.ChunkReader
