import TileRoom.Proofs.Text.Cuts
import TileRoom.Proofs.Text.Encoding
import TileRoom.Proofs.Text.Numerals
import TileRoom.Text.Form

/-! Form encoding undone. Encoded texts hold no separator, so a query falls apart into the
texts it was made of. -/

namespace TileRoom.Form

theorem toNat_ofNat_ascii : ∀ value < 0x80, (Char.ofNat value).toNat = value := by decide

theorem encodeByte_plain (byte : UInt8) :
    ∀ c ∈ encodeByte byte, c.toNat < 0x80 ∧ c.toNat ≠ 0x26 ∧ c.toNat ≠ 0x3D ∧ 0x20 < c.toNat := by
  have digits : ∀ digit < 16, (Numeral.upperDigit digit).toNat < 0x80 ∧
      (Numeral.upperDigit digit).toNat ≠ 0x26 ∧ (Numeral.upperDigit digit).toNat ≠ 0x3D ∧
      0x20 < (Numeral.upperDigit digit).toNat := by decide
  intro c member
  unfold encodeByte at member
  split at member
  · rename_i plain
    simp only [isPlain, Bool.or_eq_true, Bool.and_eq_true, decide_eq_true_eq] at plain
    rw [List.mem_singleton.1 member, toNat_ofNat_ascii _ (by omega)]
    omega
  split at member
  · rw [List.mem_singleton.1 member]
    decide
  · rcases List.mem_cons.1 member with rfl | hex
    · decide
    · obtain ⟨digit, known, rfl⟩ := List.mem_map.1 hex
      exact digits digit (Numeral.fixedDigits_lt 16 2 byte.toNat (by decide) digit known)

theorem encode_plain (text : List Char) :
    ∀ c ∈ encode text, c.toNat < 0x80 ∧ c.toNat ≠ 0x26 ∧ c.toNat ≠ 0x3D ∧ 0x20 < c.toNat := by
  intro c member
  obtain ⟨byte, _, inside⟩ := List.mem_flatMap.1 member
  exact encodeByte_plain byte c inside

theorem decodePercents_other (byte : UInt8) (rest : Bytes) (other : byte.toNat ≠ 0x25) :
    decodePercents (byte :: rest) = byte :: decodePercents rest := by
  match rest with
  | [] => rfl
  | [_] => rfl
  | _ :: _ :: _ => simp only [decodePercents, decide_eq_false other]

theorem decodePercents_encodeByte (byte : UInt8) (rest : Bytes) :
    decodePercents ((Utf8.encode (encodeByte byte)).map plusToSpace ++ rest) =
      byte :: decodePercents rest := by
  rw [Utf8.encode_ascii _ fun c member => (encodeByte_plain byte c member).1]
  unfold encodeByte
  split
  · rename_i plain
    simp only [isPlain, Bool.or_eq_true, Bool.and_eq_true, decide_eq_true_eq] at plain
    have same : UInt8.ofNat (Char.ofNat byte.toNat).toNat = byte := by
      rw [toNat_ofNat_ascii _ (by omega), UInt8.ofNat_toNat]
    have kept : plusToSpace byte = byte := if_neg (by omega)
    simp only [List.map_cons, List.map_nil, same, kept, List.singleton_append]
    exact decodePercents_other byte rest (by omega)
  split
  · rename_i space
    have same : byte = 0x20 := UInt8.toNat_inj.1 space
    subst same
    exact decodePercents_other 0x20 rest (by decide)
  · have digits : ∀ digit < 16, hexDigit? (plusToSpace (UInt8.ofNat (Numeral.upperDigit digit).toNat)) =
        some digit := by decide
    have value : byte.toNat / 16 % 16 * 16 + byte.toNat % 16 = byte.toNat := by
      have := byte.toNat_lt
      omega
    have high := digits (byte.toNat / 16 % 16) (Nat.mod_lt _ (by decide))
    have low := digits (byte.toNat % 16) (Nat.mod_lt _ (by decide))
    have percent : plusToSpace (UInt8.ofNat '%'.toNat) = 0x25 := by decide
    simp only [Numeral.fixedDigits, List.nil_append, List.cons_append, List.map_cons, List.map_nil, percent,
      decodePercents, high, low]
    change UInt8.ofNat (byte.toNat / 16 % 16 * 16 + byte.toNat % 16) :: decodePercents rest = _
    rw [value, UInt8.ofNat_toNat]

theorem decode_encode (text : List Char) : decode (Utf8.encode (encode text)) = text := by
  have read (bytes : Bytes) :
      decodePercents ((Utf8.encode (bytes.flatMap encodeByte)).map plusToSpace) = bytes := by
    induction bytes with
    | nil => rfl
    | cons byte rest ih =>
      rw [List.flatMap_cons, Utf8.encode_append, List.map_append, decodePercents_encodeByte, ih]
  rw [decode, encode, read, Utf8.decodeLossy_encode]

theorem decodePercents_literal (first high low : UInt8) (rest : Bytes)
    (literal : ∀ upper lower, decide (first.toNat = 0x25) = true → hexDigit? high = some upper →
      hexDigit? low = some lower → False) :
    decodePercents (first :: high :: low :: rest) = first :: decodePercents (high :: low :: rest) := by
  rw [decodePercents]
  split
  next upper lower percent highDigit lowDigit =>
    exact (literal upper lower percent highDigit lowDigit).elim
  · rfl

/-- A byte that is no percent sign and no digit stands for itself and ends what stands
before it. -/
theorem decodePercents_append (front rest : Bytes) (byte : UInt8) (other : byte.toNat ≠ 0x25)
    (notDigit : hexDigit? byte = none) :
    decodePercents (front ++ byte :: rest) = decodePercents front ++ byte :: decodePercents rest := by
  fun_induction decodePercents front with
  | case1 first high low others upper lower lowDigit highDigit percent ih =>
    simp only [List.cons_append, decodePercents, percent, highDigit, lowDigit, ih]
  | case2 first high low others literal ih =>
    simp only [List.cons_append] at ih ⊢
    rw [decodePercents_literal first high low _ literal, ih]
  | case3 first others few ih =>
    match others with
    | [] =>
      have stops (after : Bytes) : decodePercents (first :: byte :: after) =
          first :: decodePercents (byte :: after) := by
        match after with
        | [] => rfl
        | _ :: _ =>
          apply decodePercents_literal
          simp [notDigit]
      rw [List.singleton_append, stops, decodePercents_other byte rest other]
      rfl
    | [high] =>
      have literal := decodePercents_literal first high byte rest (by simp [notDigit])
      simp only [List.cons_append, List.nil_append] at ih ⊢
      rw [literal, ih]
    | high :: low :: more => exact (few high low more rfl).elim
  | case4 => exact decodePercents_other byte rest other

theorem decode_append_equals (front rest : Bytes) :
    decode (front ++ 0x3D :: rest) = decode front ++ '=' :: decode rest := by
  have kept : plusToSpace 0x3D = 0x3D := by decide
  rw [decode, List.map_append, List.map_cons, kept,
    decodePercents_append _ _ 0x3D (by decide) (by decide),
    Utf8.decodeLossy_append_ascii _ _ 0x3D (by decide), Utf8.decodeLossy_ascii_cons 0x3D _ (by decide)]
  rfl

theorem decode_ne_nil (bytes : Bytes) (nonempty : bytes ≠ []) : decode bytes ≠ [] := by
  have more (first : UInt8) (rest : Bytes) : ∃ byte after, decodePercents (first :: rest) = byte :: after := by
    match rest with
    | [] => exact ⟨_, _, rfl⟩
    | [_] => exact ⟨_, _, rfl⟩
    | high :: low :: others =>
      rw [decodePercents]
      split <;> exact ⟨_, _, rfl⟩
  obtain ⟨first, rest, rfl⟩ := List.exists_cons_of_ne_nil nonempty
  obtain ⟨byte, after, read⟩ := more (plusToSpace first) (rest.map plusToSpace)
  rw [decode, List.map_cons, read]
  exact Utf8.decodeLossy_ne_nil byte after

end TileRoom.Form
