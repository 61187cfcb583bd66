import TileRoom.Text.Utf8

/-! Text sent as bytes is read back unchanged. The bytes of one character are taken up
one at a time; the character still owed carries the bits read so far. -/

namespace TileRoom.Utf8

theorem toNat_ofNat (value : Nat) (small : value < 0x100) : (UInt8.ofNat value).toNat = value := by
  simp only [UInt8.toNat_ofNat']
  omega

theorem piecesFrom_inner (missing low high code value : Nat) (rest : Bytes)
    (small : value < 0x100) (more : 2 ≤ missing) (inside : low ≤ value ∧ value ≤ high) :
    piecesFrom (some ⟨missing, low, high, code⟩) (UInt8.ofNat value :: rest) =
      piecesFrom (some ⟨missing - 1, 0x80, 0xBF, code * 0x40 + value % 0x40⟩) rest := by
  simp only [piecesFrom, step, toNat_ofNat value small, if_pos inside]
  rw [if_neg (by omega), List.nil_append]

theorem piecesFrom_last (low high code value : Nat) (rest : Bytes) (small : value < 0x100)
    (inside : low ≤ value ∧ value ≤ high) :
    piecesFrom (some ⟨1, low, high, code⟩) (UInt8.ofNat value :: rest) =
      some (Char.ofNat (code * 0x40 + value % 0x40)) :: pieces rest := by
  simp only [piecesFrom, step, toNat_ofNat value small, if_pos inside, Nat.le_refl, if_true, pieces,
    List.singleton_append]

theorem pieces_start (byte : UInt8) (rest : Bytes) :
    pieces (byte :: rest) = (start byte).1 ++ piecesFrom (start byte).2 rest := rfl

/-- The first of three bytes allows just the second bytes of characters of three bytes
that exist. -/
theorem start_three (code : Nat) (low : 0x800 ≤ code) (high : code < 0x10000)
    (real : code < 0xD800 ∨ 0xDFFF < code) :
    ∃ least greatest, start (UInt8.ofNat (0xE0 + code / 0x1000)) =
        ([], some ⟨2, least, greatest, code / 0x1000⟩) ∧
      least ≤ 0x80 + code / 0x40 % 0x40 ∧ 0x80 + code / 0x40 % 0x40 ≤ greatest := by
  unfold start
  rw [toNat_ofNat _ (by omega)]
  by_cases first : code / 0x1000 = 0
  · refine ⟨0xA0, 0xBF, ?_, by omega, by omega⟩
    rw [first]
    rfl
  by_cases surrogates : code / 0x1000 = 0xD
  · refine ⟨0x80, 0x9F, ?_, by omega, by omega⟩
    rw [surrogates]
    rfl
  · refine ⟨0x80, 0xBF, ?_, by omega, by omega⟩
    simp only
    rw [if_neg (by omega), if_neg (by omega), if_neg (by omega), if_neg (by omega),
      if_neg (by omega), if_pos (by omega), Nat.add_sub_cancel_left]

theorem start_four (code : Nat) (low : 0x10000 ≤ code) (high : code < 0x110000) :
    ∃ least greatest, start (UInt8.ofNat (0xF0 + code / 0x40000)) =
        ([], some ⟨3, least, greatest, code / 0x40000⟩) ∧
      least ≤ 0x80 + code / 0x1000 % 0x40 ∧ 0x80 + code / 0x1000 % 0x40 ≤ greatest := by
  unfold start
  rw [toNat_ofNat _ (by omega)]
  by_cases first : code / 0x40000 = 0
  · refine ⟨0x90, 0xBF, ?_, by omega, by omega⟩
    rw [first]
    rfl
  by_cases last : code / 0x40000 = 4
  · refine ⟨0x80, 0x8F, ?_, by omega, by omega⟩
    rw [last]
    rfl
  · refine ⟨0x80, 0xBF, ?_, by omega, by omega⟩
    simp only
    rw [if_neg (by omega), if_neg (by omega), if_neg (by omega), if_neg (by omega),
      if_neg (by omega), if_neg (by omega), if_neg (by omega), if_pos (by omega),
      Nat.add_sub_cancel_left]

theorem start_two (code : Nat) (low : 0x80 ≤ code) (high : code < 0x800) :
    start (UInt8.ofNat (0xC0 + code / 0x40)) = ([], some ⟨1, 0x80, 0xBF, code / 0x40⟩) := by
  unfold start
  rw [toNat_ofNat _ (by omega)]
  simp only
  rw [if_neg (by omega), if_neg (by omega), if_pos (by omega), Nat.add_sub_cancel_left]

theorem start_one (code : Nat) (small : code < 0x80) :
    start (UInt8.ofNat code) = ([some (Char.ofNat code)], none) := by
  unfold start
  rw [toNat_ofNat _ (by omega)]
  simp only
  rw [if_pos small]

theorem code_exists (c : Char) :
    c.toNat < 0xD800 ∨ 0xDFFF < c.toNat ∧ c.toNat < 0x110000 :=
  c.valid

theorem pieces_encodeChar (c : Char) (rest : Bytes) :
    pieces (encodeChar c ++ rest) = some c :: pieces rest := by
  have valid := code_exists c
  have whole (code : Nat) (same : code = c.toNat) : Char.ofNat code = c := by
    rw [same, Char.ofNat_toNat]
  unfold encodeChar
  simp only
  split
  · rename_i one
    rw [List.singleton_append, pieces_start, start_one _ one, whole _ rfl]
    rfl
  split
  · rename_i two
    simp only [List.cons_append, List.nil_append]
    rw [pieces_start, start_two _ (by omega) two, List.nil_append,
      piecesFrom_last _ _ _ _ _ (by omega) (by omega), whole _ (by omega)]
  split
  · rename_i three
    obtain ⟨least, greatest, first, second⟩ := start_three c.toNat (by omega) three (by omega)
    simp only [List.cons_append, List.nil_append]
    rw [pieces_start, first, List.nil_append,
      piecesFrom_inner _ _ _ _ _ _ (by omega) (by omega) second,
      piecesFrom_last _ _ _ _ _ (by omega) (by omega), whole _ (by omega)]
  · obtain ⟨least, greatest, first, second⟩ := start_four c.toNat (by omega) (by omega)
    simp only [List.cons_append, List.nil_append]
    rw [pieces_start, first, List.nil_append,
      piecesFrom_inner _ _ _ _ _ _ (by omega) (by omega) second,
      piecesFrom_inner _ _ _ _ _ _ (by omega) (by omega) (by omega),
      piecesFrom_last _ _ _ _ _ (by omega) (by omega), whole _ (by omega)]

theorem pieces_encode (text : List Char) : pieces (encode text) = text.map some := by
  induction text with
  | nil => rfl
  | cons c rest ih =>
    rw [encode, List.flatMap_cons, pieces_encodeChar, ← encode, ih]
    rfl

theorem decode?_encode (text : List Char) : decode? (encode text) = some text := by
  unfold decode?
  rw [pieces_encode]
  induction text with
  | nil => rfl
  | cons c rest ih => simp [ih]

theorem decodeLossy_encode (text : List Char) : decodeLossy (encode text) = text := by
  unfold decodeLossy
  rw [pieces_encode, List.map_map]
  exact List.map_id text

theorem encodeChar_length (c : Char) :
    0 < (encodeChar c).length ∧ (encodeChar c).length ≤ 4 := by
  unfold encodeChar
  simp only
  split
  · simp
  split
  · simp
  split <;> simp

theorem encode_length_le (text : List Char) : (encode text).length ≤ 4 * text.length := by
  induction text with
  | nil => simp
  | cons c rest ih =>
    have first := (encodeChar_length c).2
    rw [encode, List.flatMap_cons, ← encode, List.length_append, List.length_cons]
    omega

theorem length_le_encode (text : List Char) : text.length ≤ (encode text).length := by
  induction text with
  | nil => exact Nat.zero_le _
  | cons c rest ih =>
    have first := (encodeChar_length c).1
    rw [encode, List.flatMap_cons, ← encode, List.length_append, List.length_cons]
    omega

theorem encodeChar_ascii (c : Char) (ascii : c.toNat < 0x80) :
    encodeChar c = [UInt8.ofNat c.toNat] := by
  simp only [encodeChar, if_pos ascii]

theorem encode_ascii (text : List Char) (ascii : ∀ c ∈ text, c.toNat < 0x80) :
    encode text = text.map fun c => UInt8.ofNat c.toNat := by
  induction text with
  | nil => rfl
  | cons c rest ih =>
    have others := ih fun other member => ascii other (List.mem_cons_of_mem _ member)
    rw [encode, List.flatMap_cons, encodeChar_ascii c (ascii c (List.mem_cons_self ..)), ← encode,
      others, List.map_cons, List.singleton_append]

theorem encodeChar_high (c : Char) (high : 0x80 ≤ c.toNat) : ∀ byte ∈ encodeChar c, 0x80 ≤ byte.toNat := by
  have part (value : Nat) (low : 0x80 ≤ value) (small : value < 0x100) : 0x80 ≤ (UInt8.ofNat value).toNat := by
    rwa [toNat_ofNat value small]
  have valid := code_exists c
  unfold encodeChar
  simp only
  rw [if_neg (by omega)]
  split
  · simp only [List.forall_mem_cons]
    exact ⟨part _ (by omega) (by omega), part _ (by omega) (by omega), by simp⟩
  split
  · simp only [List.forall_mem_cons]
    exact ⟨part _ (by omega) (by omega), part _ (by omega) (by omega), part _ (by omega) (by omega), by simp⟩
  · simp only [List.forall_mem_cons]
    exact ⟨part _ (by omega) (by omega), part _ (by omega) (by omega), part _ (by omega) (by omega),
      part _ (by omega) (by omega), by simp⟩

theorem not_mem_encode {text : List Char} {c : Char} (ascii : c.toNat < 0x80) (absent : c ∉ text) :
    UInt8.ofNat c.toNat ∉ encode text := by
  intro member
  obtain ⟨other, inside, part⟩ := List.mem_flatMap.1 member
  by_cases plain : other.toNat < 0x80
  · rw [encodeChar_ascii other plain] at part
    have values := congrArg UInt8.toNat (List.mem_singleton.1 part)
    rw [toNat_ofNat _ (by omega), toNat_ofNat _ (by omega)] at values
    exact absent (Char.toNat_inj.1 values ▸ inside)
  · have high := encodeChar_high other (by omega) _ part
    rw [toNat_ofNat _ (by omega)] at high
    omega

theorem encode_eq_nil_iff (text : List Char) : encode text = [] ↔ text = [] := by
  constructor
  · intro none
    have shorter := length_le_encode text
    rw [none, List.length_nil, Nat.le_zero] at shorter
    exact List.eq_nil_of_length_eq_zero shorter
  · rintro rfl
    rfl

/-- No byte of ASCII goes on with a character that was begun. -/
def BreaksAtAscii (pending : Option Pending) : Prop :=
  ∀ begun ∈ pending, 0x80 ≤ begun.low

theorem start_breaksAtAscii (byte : UInt8) : BreaksAtAscii (start byte).2 := by
  unfold start BreaksAtAscii
  simp only
  repeat' split
  all_goals simp

theorem step_breaksAtAscii (pending : Option Pending) (byte : UInt8) :
    BreaksAtAscii (step pending byte).2 := by
  unfold step
  split
  · exact start_breaksAtAscii byte
  split
  · simp only
    split <;> simp [BreaksAtAscii]
  · exact start_breaksAtAscii byte

theorem piecesFrom_append_ascii (front rest : Bytes) (byte : UInt8) (ascii : byte.toNat < 0x80)
    (pending : Option Pending) (breaks : BreaksAtAscii pending) :
    piecesFrom pending (front ++ byte :: rest) = piecesFrom pending front ++ pieces (byte :: rest) := by
  induction front generalizing pending with
  | nil =>
    cases pending with
    | none => rfl
    | some begun =>
      have outside : ¬(begun.low ≤ byte.toNat ∧ byte.toNat ≤ begun.high) := by
        have high := breaks begun rfl
        omega
      simp only [List.nil_append, piecesFrom, step, if_neg outside, pieces]
      rfl
  | cons first others ih =>
    rw [List.cons_append, piecesFrom, piecesFrom, ih _ (step_breaksAtAscii pending first),
      List.append_assoc]

theorem decodeLossy_append_ascii (front rest : Bytes) (byte : UInt8) (ascii : byte.toNat < 0x80) :
    decodeLossy (front ++ byte :: rest) = decodeLossy front ++ decodeLossy (byte :: rest) := by
  have apart := piecesFrom_append_ascii front rest byte ascii none (by simp [BreaksAtAscii])
  rw [decodeLossy, pieces, apart, List.map_append]
  rfl

theorem decodeLossy_ascii_cons (byte : UInt8) (rest : Bytes) (ascii : byte.toNat < 0x80) :
    decodeLossy (byte :: rest) = Char.ofNat byte.toNat :: decodeLossy rest := by
  have one : start byte = ([some (Char.ofNat byte.toNat)], none) := by
    rw [start, if_pos ascii]
  rw [decodeLossy, pieces_start, one]
  rfl

/-- Bytes never read as no text at all: what is begun and not ended is marked. -/
theorem decodeLossy_ne_nil (byte : UInt8) (rest : Bytes) : decodeLossy (byte :: rest) ≠ [] := by
  have marked (begun : Pending) (rest : Bytes) : piecesFrom (some begun) rest ≠ [] := by
    induction rest generalizing begun with
    | nil => simp [piecesFrom]
    | cons next others ih =>
      rw [piecesFrom, step]
      split
      · simp only
        split
        · simp
        · exact ih _
      · simp
  rw [decodeLossy, pieces_start, ne_eq, List.map_eq_nil_iff]
  unfold start
  simp only
  repeat' split
  all_goals first | exact marked _ rest | simp

end TileRoom.Utf8
