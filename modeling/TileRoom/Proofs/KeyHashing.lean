import TileRoom.Proofs.Handshaking
import TileRoom.Proofs.Text.Trimming

/-! The hash of a key on both sides. A server drops the blanks of ASCII around a key and a client all
blanks, so they agree on a key when no other blank stands where those of ASCII end. Otherwise they
hash different texts. -/

namespace TileRoom

namespace Key

/-- The blanks of ASCII; the vertical tab is none of them. -/
def isPlainBlank (c : Char) : Bool :=
  c = ' ' || c = '\t' || c = '\n' || c = '\x0c' || c = '\r'

/-- What is left of a key without the blanks of ASCII around it has no other blank at either end. -/
def EndsClear (key : List Char) : Prop :=
  Blank.Trimmed Blank.isBlank (Blank.trimWhere isPlainBlank key)

instance (key : List Char) : Decidable (EndsClear key) :=
  inferInstanceAs (Decidable (Blank.Trimmed _ _))

theorem isBlank_of_plain (c : Char) (plain : isPlainBlank c = true) : Blank.isBlank c = true := by
  simp only [isPlainBlank, Bool.or_eq_true, decide_eq_true_eq] at plain
  rcases plain with (((rfl | rfl) | rfl) | rfl) | rfl <;> decide

theorem isBlank_encodeChar (c : Char) : ∀ byte ∈ Utf8.encodeChar c, Head.isBlank byte = isPlainBlank c := by
  intro byte member
  by_cases ascii : c.toNat < 0x80
  · have alike : ∀ value < 0x80, Head.isBlank (UInt8.ofNat value) = isPlainBlank (Char.ofNat value) := by decide
    rw [Utf8.encodeChar_ascii c ascii] at member
    rw [List.mem_singleton.1 member, alike _ ascii, Char.ofNat_toNat]
  · have high := Utf8.encodeChar_high c (by omega) byte member
    have notByte : ¬Head.isBlank byte = true := by
      intro blank
      simp only [Head.isBlank, Bool.or_eq_true, decide_eq_true_eq] at blank
      rcases blank with (((rfl | rfl) | rfl) | rfl) | rfl <;> exact absurd high (by decide)
    have notPlain : ¬isPlainBlank c = true := by
      intro plain
      simp only [isPlainBlank, Bool.or_eq_true, decide_eq_true_eq] at plain
      rcases plain with (((rfl | rfl) | rfl) | rfl) | rfl <;> exact ascii (by decide)
    rw [Bool.not_eq_true _ |>.mp notByte, Bool.not_eq_true _ |>.mp notPlain]

theorem encodeChar_ne_nil (c : Char) : Utf8.encodeChar c ≠ [] := by
  intro none
  have single : Utf8.encode [c] = [] := by
    rw [Utf8.encode, List.flatMap_singleton, none]
  exact List.cons_ne_nil c [] ((Utf8.encode_eq_nil_iff _).1 single)

theorem trimWhere_encode (key : List Char) :
    Blank.trimWhere Head.isBlank (Utf8.encode key) = Utf8.encode (Blank.trimWhere isPlainBlank key) :=
  Blank.trimWhere_flatMap encodeChar_ne_nil isBlank_encodeChar key

theorem trimWhere_encode_eq_iff (key : List Char) :
    Blank.trimWhere Head.isBlank (Utf8.encode key) = Utf8.encode (Blank.trim key) ↔ EndsClear key := by
  have injective : Utf8.encode (Blank.trimWhere isPlainBlank key) = Utf8.encode (Blank.trim key) ↔
      Blank.trim key = Blank.trimWhere isPlainBlank key := by
    constructor
    · intro same
      have read := congrArg Utf8.decodeLossy same
      rw [Utf8.decodeLossy_encode, Utf8.decodeLossy_encode] at read
      exact read.symm
    · exact fun same => (congrArg Utf8.encode same).symm
  rw [trimWhere_encode, injective]
  exact Blank.trimWhere_eq_iff isBlank_of_plain key

end Key

namespace Head

def Other (header : Bytes) : Prop :=
  header.length ≤ maxLine ∧ 0x3A ∈ header ∧ ¬keyHeader <+: header.map lower

instance (header : Bytes) : Decidable (Other header) :=
  inferInstanceAs (Decidable (_ ∧ _ ∧ _))

theorem joinFrom_append (header : Bytes) (lines : List Bytes) {line : Bytes} (fresh : line.head? ≠ some 0x20)
    (rest : List Bytes) : joinFrom header (lines ++ line :: rest) = joinFrom header lines ++ joinFrom line rest := by
  induction lines generalizing header with
  | nil => exact if_neg fresh
  | cons next others ih =>
    rw [List.cons_append, joinFrom, joinFrom]
    split
    · exact ih (header ++ next)
    · rw [ih next, List.cons_append]

theorem joined_append (before : List Bytes) {line : Bytes} (fresh : line.head? ≠ some 0x20) (rest : List Bytes) :
    joined (before ++ line :: rest) = joined before ++ joinFrom line rest := by
  cases before with
  | nil => rfl
  | cons first others => exact joinFrom_append first others fresh rest

theorem joinFrom_ended (line : Bytes) {after : List Bytes} (apart : ∀ next ∈ after.head?, next.head? ≠ some 0x20) :
    joinFrom line after = line :: joined after := by
  cases after with
  | nil => rfl
  | cons next rest => rw [joinFrom, if_neg (apart next rfl), joined]

theorem judgeHeaders_others (request : RequestLine) (used : Nat) (key : Option Bytes) {headers : List Bytes}
    (others : ∀ header ∈ headers, Other header) (rest : List Bytes) :
    judgeHeaders request used true key (headers ++ rest) = judgeHeaders request used true key rest := by
  induction headers with
  | nil => rfl
  | cons header later ih =>
    obtain ⟨⟨short, colon, apart⟩, others⟩ := List.forall_mem_cons.1 others
    have read : readHeader key header = .ok key := by
      rw [readHeader, if_neg (not_not.2 colon), if_pos apart]
    rw [List.cons_append, judgeHeaders, if_neg (by omega), if_neg (by simp), read]
    exact ih others

theorem lines_skipped (count : Nat) {line : Bytes} (full : line ≠ []) (rest : List Bytes) :
    (List.replicate count [] ++ line :: rest).takeWhile (· = []) = List.replicate count [] ∧
      (List.replicate count [] ++ line :: rest).dropWhile (· = []) = line :: rest := by
  have empty : ∀ line ∈ List.replicate count ([] : Bytes), decide (line = []) = true :=
    fun line member => decide_eq_true (List.eq_of_mem_replicate member)
  rw [List.takeWhile_append_of_pos empty, List.dropWhile_append_of_pos empty,
    List.takeWhile_cons_of_neg (by simpa using full), List.dropWhile_cons_of_neg (by simpa using full), List.append_nil]
  exact ⟨rfl, rfl⟩

theorem headers_ended {headers : List Bytes} (full : ∀ line ∈ headers, line ≠ []) (others : List Bytes) (tail : Bytes) :
    headerLines (headers ++ [] :: others) tail = headers ∧
      headerLength (headers ++ [] :: others) = (text (headers ++ [[]])).length := by
  have taken : (headers ++ [] :: others).takeWhile (· ≠ []) = headers := by
    rw [List.takeWhile_append_of_pos fun line member => decide_eq_true (full line member),
      List.takeWhile_cons_of_neg (by decide), List.append_nil]
  have closed : [] ∈ headers ++ [] :: others := List.mem_append_right _ List.mem_cons_self
  rw [headerLines, headerLength, taken, if_pos (.inl closed), List.append_nil]
  exact ⟨rfl, rfl⟩

theorem judgeHeaders_keyed (request : RequestLine) (used : Nat) {key : String}
    (short : (Request.keyLine key).length ≤ maxLine) {before after : List Bytes} (early : ∀ header ∈ before, Other header)
    (late : ∀ header ∈ after, Other header) :
    judgeHeaders request used true none (before ++ Request.keyLine key :: after) =
      .finished used request (Key.hashBytes (Blank.trimWhere isBlank (Utf8.encode key.toList))) := by
  rw [judgeHeaders_others request used none early, judgeHeaders, if_neg (Nat.not_lt.2 short), if_neg (by simp),
    Request.readHeader_keyLine]
  dsimp only
  rw [← List.append_nil after, judgeHeaders_others request used _ late]
  rfl

/-- The head of a request around the line of its key. -/
structure Surroundings where
  skipped : Nat
  line : Bytes
  before : List Bytes
  after : List Bytes

namespace Surroundings

variable {around : Surroundings} {request : RequestLine}

def lines (around : Surroundings) (keyLine : Bytes) : List Bytes :=
  List.replicate around.skipped [] ++ around.line :: (around.before ++ keyLine :: around.after ++ [[]])

/-- But for the line of its key, a head is valid, and the line after it does not continue it. -/
structure Valid (around : Surroundings) (request : RequestLine) : Prop where
  request : readRequest around.line = .ok request
  fits : around.line.length ≤ maxLine
  whole : ∀ line ∈ around.line :: (around.before ++ around.after), line ≠ [] ∧ Unbroken line
  others : ∀ header ∈ joined around.before ++ joined around.after, Other header
  unfolded : ∀ next ∈ around.after.head?, next.head? ≠ some 0x20

theorem Valid.unbroken (valid : around.Valid request) {key : String} (oneLine : '\r' ∉ key.toList) :
    ∀ line ∈ around.lines (Request.keyLine key), Unbroken line := by
  obtain ⟨named, whole⟩ := List.forall_mem_cons.1 valid.whole
  obtain ⟨early, late⟩ := List.forall_mem_append.1 whole
  have skipped : ∀ line ∈ List.replicate around.skipped ([] : Bytes), Unbroken line := by
    intro line member
    rw [List.eq_of_mem_replicate member]
    exact unbroken_nil
  simp only [lines, List.forall_mem_append, List.forall_mem_cons]
  exact ⟨skipped, named.2, ⟨fun line member => (early line member).2, Request.keyLine_unbroken oneLine,
    fun line member => (late line member).2⟩, unbroken_nil, List.forall_mem_nil _⟩

theorem Valid.judged (valid : around.Valid request) {key : String} (short : (Request.keyLine key).length ≤ maxLine)
    (others : List Bytes) (tail : Bytes) :
    let lines := around.lines (Request.keyLine key)
    judgeRequest ((lines ++ others).takeWhile (· = [])) tail ((lines ++ others).dropWhile (· = [])) =
      .finished (text lines).length request (Key.hashBytes (Blank.trimWhere isBlank (Utf8.encode key.toList))) := by
  intro lines
  obtain ⟨named, whole⟩ := List.forall_mem_cons.1 valid.whole
  obtain ⟨early, late⟩ := List.forall_mem_append.1 whole
  let headers := around.before ++ Request.keyLine key :: around.after
  have full : ∀ line ∈ headers, line ≠ [] := List.forall_mem_append.2 ⟨fun line member => (early line member).1,
    List.forall_mem_cons.2 ⟨Request.keyLine_ne_nil key, fun line member => (late line member).1⟩⟩
  obtain ⟨read, length⟩ := headers_ended full others tail
  have form : lines ++ others = List.replicate around.skipped [] ++ around.line :: (headers ++ [] :: others) := by
    simp only [lines, Surroundings.lines, headers, List.append_assoc, List.cons_append, List.nil_append]
  obtain ⟨skipped, left⟩ := lines_skipped around.skipped named.1 (headers ++ [] :: others)
  have used : (text (List.replicate around.skipped [] ++ [around.line])).length + headerLength (headers ++ [] :: others) =
      (text lines).length := by
    rw [length, ← List.length_append, text, text, ← List.flatMap_append]
    simp only [text, lines, Surroundings.lines, headers, List.append_assoc, List.cons_append, List.nil_append]
  have closed : [] ∈ headers ++ [] :: others := List.mem_append_right _ List.mem_cons_self
  obtain ⟨before, after⟩ := List.forall_mem_append.1 valid.others
  rw [form, skipped, left, judgeRequest, if_neg (Nat.not_lt.2 valid.fits), valid.request]
  dsimp only
  rw [used, read, decide_eq_true closed, joined_append _ (Request.keyLine_fresh key), joinFrom_ended _ valid.unfolded]
  exact judgeHeaders_keyed request _ short before after

end Surroundings

end Head

/-- A head is valid but for the line of its key, which is not longer than a line may be. However its
bytes are cut, the server reports the hash of the key without the blanks of ASCII around it. The
client hashes the same text when no other blank stands where these end, and then it waits for the
token that the server sends. -/
theorem key_hashed_alike {key : String} (oneLine : '\r' ∉ key.toList)
    (short : (Request.keyLine key).length ≤ Head.maxLine) {around : Head.Surroundings} {request : Head.RequestLine}
    (valid : around.Valid request) (rest : Bytes) (pieces : List Bytes)
    (whole : pieces.flatten = Head.text (around.lines (Request.keyLine key)) ++ rest) :
    let read := HeadReader.feedAll {} pieces
    let hashed := Blank.trimWhere Head.isBlank (Utf8.encode key.toList)
    read.1 = .finished (Head.text (around.lines (Request.keyLine key))).length ∧
      read.2.target = request.target ∧ read.2.keyHash = some (Key.hashBytes hashed) ∧
      (hashed = Utf8.encode (Blank.trim key.toList) ↔ Key.EndsClear key.toList) ∧
      (Key.EndsClear key.toList → read.2.keyHash = some (Key.hash key) ∧
        ∀ (registry : Registry) (remote : Address) (now : Nat) (draw : Draw), ∃ start status chunked used,
          let found := registry.route read.2.target read.2.keyHash remote now draw
          found.2.start? found.1.response = some start ∧ ∀ more, ResponseHead.parse (start ++ more) =
            .ok (some (⟨status, some (IncomingStream.ofKey key).token, chunked⟩, used))) := by
  intro read hashed
  obtain ⟨each, unended, lines⟩ := Head.lines_spec rest
  have all : ∀ line ∈ around.lines (Request.keyLine key) ++ (Head.lines rest).1, Head.Unbroken line :=
    List.forall_mem_append.2 ⟨valid.unbroken oneLine, each⟩
  have verdict := HeadReader.verdict_lines _ all unended []
  have text : Head.text (around.lines (Request.keyLine key) ++ (Head.lines rest).1) ++ (Head.lines rest).2 =
      pieces.flatten := by
    rw [whole, Head.text, List.flatMap_append, List.append_assoc, ← Head.text, ← Head.text, ← lines]
  rw [List.nil_append, valid.judged short, text] at verdict
  have fed : ({} : HeadReader).feed pieces.flatten = read := (HeadReader.feedAll_eq rfl pieces).symm
  change HeadReader.verdict (({} : HeadReader).feed pieces.flatten) = _ at verdict
  rw [fed] at verdict
  obtain ⟨finished, target, keyHash⟩ := HeadReader.of_verdict_finished verdict
  have same := Key.trimWhere_encode_eq_iff key.toList
  refine ⟨finished, target, keyHash, same, fun clear => ?_⟩
  have alike : Key.hashBytes hashed = Key.hash key := congrArg Key.hashBytes (same.2 clear)
  have reported := keyHash.trans (congrArg some alike)
  refine ⟨reported, fun registry remote now draw => ?_⟩
  rw [reported]
  obtain ⟨start, status, chunked, body, there, answers⟩ := registry.answered_route (Key.hash key) _ remote now draw
  obtain ⟨head, -, -, parsed⟩ := answers.parse
  exact ⟨start, status, chunked, _, there, parsed⟩

/-- A key with a tab and a space around it, in a head with a folded header and one that follows. -/
theorem key_hashed_alike_tabbed :
    let key := "\tdGhlIHNhbXBsZSBub25jZQ== "
    let around : Head.Surroundings := ⟨1, bytesOf "GET / HTTP/1.1", [bytesOf "Host: a", bytesOf " b"], [bytesOf "X:"]⟩
    let head := Head.text (around.lines (Request.keyLine key))
    ('\r' ∉ key.toList ∧ (Request.keyLine key).length ≤ Head.maxLine ∧ around.Valid ⟨"GET", "/"⟩ ∧
      Key.EndsClear key.toList) ∧
      ∀ cut, let read := HeadReader.feedAll {} [head.take cut, head.drop cut]
        read.1 = .finished head.length ∧ read.2.keyHash = some (Key.hash key) := by
  intro key around head
  have oneLine : '\r' ∉ key.toList := by decide
  have short : (Request.keyLine key).length ≤ Head.maxLine := by decide +kernel
  have clear : Key.EndsClear key.toList := by decide
  have valid : around.Valid ⟨"GET", "/"⟩ := {
    request := by decide +kernel
    fits := by decide +kernel
    whole := by decide +kernel
    others := by decide +kernel
    unfolded := by decide }
  refine ⟨⟨oneLine, short, valid, clear⟩, fun cut => ?_⟩
  have whole : [head.take cut, head.drop cut].flatten = head ++ [] := by simp
  obtain ⟨finished, -, -, -, agree⟩ := key_hashed_alike oneLine short valid [] _ whole
  exact ⟨finished, (agree clear).1⟩

/-- A vertical tab before a key is hashed by the server and dropped by the client. -/
theorem key_hashed_apart :
    let key := "\x0babc"
    let around : Head.Surroundings := ⟨0, bytesOf "GET / HTTP/1.1", [], []⟩
    let head := Head.text (around.lines (Request.keyLine key))
    '\r' ∉ key.toList ∧ '\n' ∉ key.toList ∧ (Request.keyLine key).length ≤ Head.maxLine ∧
      around.Valid ⟨"GET", "/"⟩ ∧ (HeadReader.feedAll {} [head]).1 = .finished head.length ∧
      (HeadReader.feedAll {} [head]).2.keyHash ≠ some (Key.hash key) := by
  intro key around head
  have valid : around.Valid ⟨"GET", "/"⟩ := {
    request := by decide +kernel
    fits := by decide +kernel
    whole := by decide +kernel
    others := by decide +kernel
    unfolded := by decide }
  refine ⟨by decide, by decide, by decide +kernel, valid, ?_, ?_⟩
  · decide +kernel
  · decide +kernel

end TileRoom
