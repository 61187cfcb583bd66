import TileRoom.Proofs.Text.Encoding

/-! Bytes that are read as a text are the bytes of that text: no other bytes are well formed. What is
begun by a first byte tells how many bytes a character has and which they may be. -/

namespace TileRoom.Utf8

theorem toNat_ofNat_char {code : Nat} (valid : code < 0xD800 ∨ 0xDFFF < code ∧ code < 0x110000) :
    (Char.ofNat code).toNat = code := by
  rw [Char.ofNat, dif_pos valid]
  rfl

theorem encodeChar_two {first second : Nat} (lead : 0xC2 ≤ first ∧ first < 0xE0)
    (tail : 0x80 ≤ second ∧ second ≤ 0xBF) :
    encodeChar (Char.ofNat ((first - 0xC0) * 0x40 + second % 0x40)) = [UInt8.ofNat first, UInt8.ofNat second] := by
  simp only [encodeChar]
  rw [toNat_ofNat_char (by omega), if_neg (by omega), if_pos (by omega)]
  simp only [List.cons.injEq, and_true]
  exact ⟨congrArg _ (by omega), congrArg _ (by omega)⟩

theorem encodeChar_three {first second third : Nat} (lead : 0xE0 ≤ first ∧ first < 0xF0)
    (inner : 0x80 ≤ second ∧ second ≤ 0xBF) (least : first = 0xE0 → 0xA0 ≤ second)
    (real : first = 0xED → second ≤ 0x9F) (tail : 0x80 ≤ third ∧ third ≤ 0xBF) :
    encodeChar (Char.ofNat (((first - 0xE0) * 0x40 + second % 0x40) * 0x40 + third % 0x40)) =
      [UInt8.ofNat first, UInt8.ofNat second, UInt8.ofNat third] := by
  simp only [encodeChar]
  rw [toNat_ofNat_char (by omega), if_neg (by omega), if_neg (by omega), if_pos (by omega)]
  simp only [List.cons.injEq, and_true]
  exact ⟨congrArg _ (by omega), congrArg _ (by omega), congrArg _ (by omega)⟩

theorem encodeChar_four {first second third fourth : Nat} (lead : 0xF0 ≤ first ∧ first ≤ 0xF4)
    (inner : 0x80 ≤ second ∧ second ≤ 0xBF) (least : first = 0xF0 → 0x90 ≤ second)
    (real : first = 0xF4 → second ≤ 0x8F) (middle : 0x80 ≤ third ∧ third ≤ 0xBF)
    (tail : 0x80 ≤ fourth ∧ fourth ≤ 0xBF) :
    encodeChar (Char.ofNat ((((first - 0xF0) * 0x40 + second % 0x40) * 0x40 + third % 0x40) * 0x40 + fourth % 0x40)) =
      [UInt8.ofNat first, UInt8.ofNat second, UInt8.ofNat third, UInt8.ofNat fourth] := by
  simp only [encodeChar]
  rw [toNat_ofNat_char (by omega), if_neg (by omega), if_neg (by omega), if_neg (by omega)]
  simp only [List.cons.injEq, and_true]
  exact ⟨congrArg _ (by omega), congrArg _ (by omega), congrArg _ (by omega), congrArg _ (by omega)⟩

theorem piecesFrom_eq_some_cons {begun : Pending} {bytes : Bytes} {c : Char} {more : List (Option Char)}
    (read : piecesFrom (some begun) bytes = some c :: more) :
    ∃ byte rest, bytes = byte :: rest ∧ begun.low ≤ byte.toNat ∧ byte.toNat ≤ begun.high ∧
      let code := begun.code * 0x40 + byte.toNat % 0x40
      if begun.missing ≤ 1 then c = Char.ofNat code ∧ pieces rest = more
      else piecesFrom (some ⟨begun.missing - 1, 0x80, 0xBF, code⟩) rest = some c :: more := by
  cases bytes with
  | nil => simp [piecesFrom] at read
  | cons byte rest =>
    refine ⟨byte, rest, rfl, ?_⟩
    rw [piecesFrom, step] at read
    by_cases inside : begun.low ≤ byte.toNat ∧ byte.toNat ≤ begun.high
    · refine ⟨inside.1, inside.2, ?_⟩
      simp only [if_pos inside] at read
      dsimp only
      split
      · rename_i last
        simp only [if_pos last, List.singleton_append, List.cons.injEq, Option.some.injEq] at read
        exact ⟨read.1.symm, read.2⟩
      · rename_i owed
        simpa only [if_neg owed, List.nil_append] using read
    · simp only [if_neg inside, List.cons_append, List.cons.injEq, reduceCtorEq, false_and] at read

/-- What a first byte begins. -/
inductive Starts (value : Nat) : List (Option Char) × Option Pending → Prop where
  | one : value < 0x80 → Starts value ([some (Char.ofNat value)], none)
  | two : 0xC2 ≤ value ∧ value < 0xE0 → Starts value ([], some ⟨1, 0x80, 0xBF, value - 0xC0⟩)
  | three {low high : Nat} : 0xE0 ≤ value ∧ value < 0xF0 → 0x80 ≤ low ∧ high ≤ 0xBF →
      (value = 0xE0 → 0xA0 ≤ low) → (value = 0xED → high ≤ 0x9F) →
      Starts value ([], some ⟨2, low, high, value - 0xE0⟩)
  | four {low high : Nat} : 0xF0 ≤ value ∧ value ≤ 0xF4 → 0x80 ≤ low ∧ high ≤ 0xBF →
      (value = 0xF0 → 0x90 ≤ low) → (value = 0xF4 → high ≤ 0x8F) →
      Starts value ([], some ⟨3, low, high, value - 0xF0⟩)
  | broken : Starts value ([none], none)

theorem starts (byte : UInt8) : Starts byte.toNat (start byte) := by
  unfold start
  generalize byte.toNat = value
  dsimp only
  split
  · exact .one ‹_›
  split
  · exact .broken
  split
  · exact .two (by omega)
  split
  · rename_i least
    subst least
    exact .three (by omega) (by omega) (by omega) (by omega)
  split
  · rename_i surrogates
    subst surrogates
    exact .three (by omega) (by omega) (by omega) (by omega)
  split
  · exact .three (by omega) (by omega) (by omega) (by omega)
  split
  · rename_i least
    subst least
    exact .four (by omega) (by omega) (by omega) (by omega)
  split
  · exact .four (by omega) (by omega) (by omega) (by omega)
  split
  · rename_i greatest
    subst greatest
    exact .four (by omega) (by omega) (by omega) (by omega)
  · exact .broken

theorem pieces_eq_some_cons {bytes : Bytes} {c : Char} {more : List (Option Char)}
    (read : pieces bytes = some c :: more) : ∃ rest, bytes = encodeChar c ++ rest ∧ pieces rest = more := by
  cases bytes with
  | nil => cases read
  | cons first others =>
    rw [pieces_start] at read
    have begins := starts first
    generalize start first = begun at begins read
    cases begins with
    | one small =>
      obtain ⟨same, left⟩ := List.cons.inj read
      obtain rfl := Option.some.inj same
      refine ⟨others, ?_, left⟩
      rw [encodeChar_ascii _ (by rwa [toNat_ofNat_char (by omega)]), toNat_ofNat_char (by omega), UInt8.ofNat_toNat]
      rfl
    | two lead =>
      obtain ⟨second, rest, rfl, least, most, rfl, left⟩ := piecesFrom_eq_some_cons read
      refine ⟨rest, ?_, left⟩
      rw [encodeChar_two lead ⟨least, most⟩, UInt8.ofNat_toNat, UInt8.ofNat_toNat]
      rfl
    | three lead range least real =>
      obtain ⟨second, inner, rfl, low, high, owed⟩ := piecesFrom_eq_some_cons read
      obtain ⟨third, rest, rfl, low', high', rfl, left⟩ := piecesFrom_eq_some_cons owed
      dsimp only at low high low' high'
      refine ⟨rest, ?_, left⟩
      rw [encodeChar_three lead (by omega) (by omega) (by omega) ⟨low', high'⟩, UInt8.ofNat_toNat,
        UInt8.ofNat_toNat, UInt8.ofNat_toNat]
      rfl
    | four lead range least real =>
      obtain ⟨second, inner, rfl, low, high, owed⟩ := piecesFrom_eq_some_cons read
      obtain ⟨third, last, rfl, low', high', owed'⟩ := piecesFrom_eq_some_cons owed
      obtain ⟨fourth, rest, rfl, low'', high'', rfl, left⟩ := piecesFrom_eq_some_cons owed'
      dsimp only at low high low' high' low'' high''
      refine ⟨rest, ?_, left⟩
      rw [encodeChar_four lead (by omega) (by omega) (by omega) ⟨low', high'⟩ ⟨low'', high''⟩, UInt8.ofNat_toNat,
        UInt8.ofNat_toNat, UInt8.ofNat_toNat, UInt8.ofNat_toNat]
      rfl
    | broken => cases read

theorem mapM_id_eq_some_iff {pieces : List (Option Char)} {text : List Char} :
    pieces.mapM id = some text ↔ pieces = text.map some := by
  induction pieces generalizing text with
  | nil => cases text <;> simp
  | cons piece rest ih =>
    simp only [List.mapM_cons, id_eq, Option.bind_eq_bind, Option.bind_eq_some_iff, Option.pure_def, ih]
    constructor
    · rintro ⟨c, rfl, others, rfl, made⟩
      rw [← Option.some.inj made]
      rfl
    · intro form
      cases text with
      | nil => cases form
      | cons c others =>
        obtain ⟨rfl, rfl⟩ := List.cons.inj form
        exact ⟨c, rfl, others, rfl, rfl⟩

/-- Bytes are read as a text exactly when they are the bytes of that text. -/
theorem decode?_eq_some_iff {bytes : Bytes} {text : List Char} : decode? bytes = some text ↔ bytes = encode text := by
  constructor
  · intro read
    rw [decode?, mapM_id_eq_some_iff] at read
    induction text generalizing bytes with
    | nil =>
      cases bytes with
      | nil => rfl
      | cons byte rest =>
        have some := decodeLossy_ne_nil byte rest
        rw [decodeLossy, read] at some
        exact absurd rfl some
    | cons c others ih =>
      obtain ⟨rest, rfl, left⟩ := pieces_eq_some_cons read
      rw [ih left]
      rfl
  · rintro rfl
    exact decode?_encode text

theorem decode?_append_ascii (front rest : Bytes) {byte : UInt8} (ascii : byte.toNat < 0x80) :
    decode? (front ++ byte :: rest) =
      (decode? front).bind fun before => (decode? (byte :: rest)).bind fun after => some (before ++ after) := by
  have apart := piecesFrom_append_ascii front rest byte ascii none (by simp [BreaksAtAscii])
  rw [decode?, pieces, apart, List.mapM_append]
  rfl

end TileRoom.Utf8
