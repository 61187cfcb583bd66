import TileRoom.Chunk
import TileRoom.Proofs.FrameReading

/-! A frame is sent as one line. Whatever names and texts it carries, the only bytes below
the space are those of the line break at its end. -/

namespace TileRoom

def Visible (text : List Char) : Prop :=
  ∀ c ∈ text, ' ' ≤ c

instance (text : List Char) : Decidable (Visible text) :=
  inferInstanceAs (Decidable (∀ c ∈ text, ' ' ≤ c))

/-- A payload that is one line, ended by its only line break. -/
def IsLine (payload : Bytes) : Prop :=
  ∃ text, payload = text ++ Chunk.lineBreak ∧ ∀ byte ∈ text, 0x20 ≤ byte.toNat

theorem Visible.append {front rest : List Char} (first : Visible front) (others : Visible rest) :
    Visible (front ++ rest) := by
  intro c member
  rcases List.mem_append.1 member with before | after
  · exact first c before
  · exact others c after

theorem Visible.cons {c : Char} {rest : List Char} (first : ' ' ≤ c) (others : Visible rest) :
    Visible (c :: rest) :=
  List.forall_mem_cons.2 ⟨first, others⟩

theorem Visible.encode {text : List Char} (visible : Visible text) :
    ∀ byte ∈ Utf8.encode text, 0x20 ≤ byte.toNat := by
  intro byte member
  obtain ⟨c, inside, part⟩ := List.mem_flatMap.1 member
  have printable : 0x20 ≤ c.toNat := visible c inside
  by_cases ascii : c.toNat < 0x80
  · rw [Utf8.encodeChar_ascii c ascii, List.mem_singleton] at part
    rw [part, Utf8.toNat_ofNat _ (by omega)]
    exact printable
  · have high := Utf8.encodeChar_high c (by omega) byte part
    omega

theorem Visible.isLine {text : List Char} (visible : Visible text) :
    IsLine (Utf8.encode (text ++ "\r\n".toList)) :=
  ⟨Utf8.encode text, Utf8.encode_append text _, visible.encode⟩

namespace Numeral

theorem visible_of_digits {base : Nat} {text : List Char}
    (digits : ∀ c ∈ text, ∃ digit < base, digitValue? base c = some digit) : Visible text := by
  intro c member
  obtain ⟨digit, _, value⟩ := digits c member
  by_cases visible : ' ' ≤ c
  · exact visible
  have code : c.toNat < 0x20 := Nat.not_le.1 visible
  have below (first : Char) (above : 0x20 ≤ first.toNat) : ¬first ≤ c :=
    fun within => Nat.not_le.2 code (Nat.le_trans above within)
  simp [digitValue?, below '0' (by decide), below 'a' (by decide), below 'A' (by decide)] at value

theorem visible_decimal (number : Nat) : Visible (decimal number) :=
  visible_of_digits (digit_of_mem writes_decimal (by omega) number)

theorem visible_signedDecimal (value : Int) : Visible (signedDecimal value) := by
  cases value with
  | ofNat number => exact visible_decimal number
  | negSucc number =>
    show Visible ('-' :: decimal (number + 1))
    exact Visible.cons (by decide) (visible_decimal (number + 1))

end Numeral

namespace Frame

theorem visible_escapeChar (c : Char) : Visible (escapeChar c) := by
  unfold escapeChar
  split
  · decide
  next above =>
    have visible : ' ' ≤ c := Nat.le_of_lt (Nat.lt_of_not_le above)
    split
    · apply Visible.cons (by decide)
      simpa [Visible] using visible
    · simpa [Visible] using visible

theorem visible_quoted (text : List Char) : Visible (quoted text) := by
  have escaped : Visible (escape text) := by
    intro c member
    obtain ⟨source, _, part⟩ := List.mem_flatMap.1 member
    exact visible_escapeChar source c part
  apply Visible.append _ (by decide)
  exact Visible.cons (by decide) escaped

theorem visible_boolText (value : Bool) : Visible (boolText value) := by
  cases value <;> decide

theorem visible_optionalText (number : Option Nat) : Visible (optionalText number) := by
  cases number with
  | none => decide
  | some value => exact Numeral.visible_decimal value

def VisibleFields (fields : List (String × List Char)) : Prop :=
  ∀ field ∈ fields, Visible field.1.toList ∧ Visible field.2

theorem visible_members (fields : List (String × List Char)) (visible : VisibleFields fields) :
    Visible (members fields) := by
  have member (name : String) (value : List Char) (named : Visible name.toList)
      (valued : Visible value) : Visible ('"' :: name.toList ++ "\": ".toList ++ value) := by
    apply Visible.append _ valued
    apply Visible.append _ (by decide)
    exact Visible.cons (by decide) named
  fun_induction members fields with
  | case1 => decide
  | case2 name value =>
    have only := visible (name, value) (List.mem_cons_self ..)
    exact member name value only.1 only.2
  | case3 name value rest more ih =>
    have first := visible (name, value) (List.mem_cons_self ..)
    have others := ih fun field inside => visible field (List.mem_cons_of_mem _ inside)
    exact ((member name value first.1 first.2).append (by decide)).append others

theorem line_isLine (tag : String) (fields : List (String × List Char))
    (known : Visible tag.toList) (visible : VisibleFields fields) :
    IsLine (Utf8.encode (line tag fields)) := by
  have split : line tag fields =
      "[\"".toList ++ tag.toList ++ "\", \x7b".toList ++ members fields ++ "\x7d]".toList ++
        "\r\n".toList := by
    rw [line, List.append_assoc _ "\x7d]".toList]
    rfl
  rw [split]
  apply Visible.isLine
  apply Visible.append _ (by decide)
  apply Visible.append _ (visible_members fields visible)
  apply Visible.append _ (by decide)
  exact Visible.append (by decide) known

theorem tagLine_isLine (tag : List Char) : IsLine (Utf8.encode (tagLine tag)) := by
  have split : tagLine tag = '[' :: quoted tag ++ [']'] ++ "\r\n".toList := by
    rw [tagLine, List.append_assoc _ [']']]
    rfl
  rw [split]
  apply Visible.isLine
  apply Visible.append _ (by decide)
  exact Visible.cons (by decide) (visible_quoted tag)

theorem payload_isLine (frame : Frame) : IsLine frame.payload := by
  cases frame with
  | header num id =>
    apply line_isLine _ _ (by decide)
    simp only [VisibleFields, List.forall_mem_cons]
    exact ⟨⟨by decide, Numeral.visible_decimal num⟩, ⟨by decide, visible_quoted _⟩, by simp⟩
  | playerName num name =>
    apply line_isLine _ _ (by decide)
    simp only [VisibleFields, List.forall_mem_cons]
    exact ⟨⟨by decide, Numeral.visible_decimal num⟩, ⟨by decide, visible_quoted _⟩, by simp⟩
  | player num connected typing =>
    apply line_isLine _ _ (by decide)
    simp only [VisibleFields, List.forall_mem_cons]
    exact ⟨⟨by decide, Numeral.visible_decimal num⟩, ⟨by decide, visible_boolText connected⟩,
      ⟨by decide, visible_boolText typing⟩, by simp⟩
  | message person text =>
    apply line_isLine _ _ (by decide)
    simp only [VisibleFields, List.forall_mem_cons]
    exact ⟨⟨by decide, Numeral.visible_decimal person⟩, ⟨by decide, visible_quoted _⟩, by simp⟩
  | shout num shouting =>
    apply line_isLine _ _ (by decide)
    simp only [VisibleFields, List.forall_mem_cons]
    exact ⟨⟨by decide, Numeral.visible_decimal num⟩, ⟨by decide, visible_boolText shouting⟩,
      by simp⟩
  | tile num x y letter lastPlayer =>
    apply line_isLine _ _ (by decide)
    simp only [VisibleFields, List.forall_mem_cons]
    exact ⟨⟨by decide, Numeral.visible_decimal num⟩,
      ⟨by decide, Numeral.visible_signedDecimal x.toInt⟩,
      ⟨by decide, Numeral.visible_signedDecimal y.toInt⟩, ⟨by decide, visible_quoted [letter]⟩,
      ⟨by decide, visible_optionalText lastPlayer⟩, by simp⟩
  | finish => exact tagLine_isLine _
  | padding => exact tagLine_isLine _
  | unknown tag => exact tagLine_isLine _

theorem padding_isLine : ∀ text ∈ paddingTexts, IsLine (bytesOf text) := by
  have checked : ∀ text ∈ paddingTexts, Visible text.toList.dropLast.dropLast ∧
      text.toList.dropLast.dropLast ++ "\r\n".toList = text.toList := by
    simp only [paddingTexts, List.forall_mem_cons, String.toList_append]
    repeat rw [String.toList_ofList]
    refine ⟨?_, ?_, ?_, ?_, by simp⟩ <;> decide +kernel
  intro text member
  obtain ⟨visible, whole⟩ := checked text member
  rw [bytesOf, ← whole]
  exact visible.isLine

/-- What is sent on a watch stream is read back as it was sent, for all numbers that fit
64 bits and all texts: a frame as the frame a reader should get, the end of the stream as
the end, padding as padding. Each payload is one line. -/
theorem decode_inverts_render :
    (∀ frame, WordSized frame → decode frame.payload = .ok frame.received) ∧
      (∀ frame, IsLine (payload frame)) ∧
      (Chunk.farewell = Chunk.frame (payload .finish) ++ Chunk.lastChunk ∧
        decode (payload .finish) = .ok .finish) ∧
      ∀ text ∈ paddingTexts, decode (bytesOf text) = .ok .padding ∧ IsLine (bytesOf text) :=
  ⟨decode_payload, payload_isLine, ⟨rfl, decode_payload .finish trivial⟩,
    fun text member => ⟨(decode_padding text member).1, padding_isLine text member⟩⟩

/-- Quotes and backslashes side by side, a deleted and a null character, a character of
four bytes, and the numbers at the ends of their ranges. -/
theorem decode_inverts_render_extremes :
    WordSized (.message 18446744073709551615 "\"\\\"\\\\ \x7f\x00𝄞\n") ∧
      decode (payload (.message 18446744073709551615 "\"\\\"\\\\ \x7f\x00𝄞\n")) =
        .ok (.message 18446744073709551615 "\"\\\"\\\\ \x7f 𝄞 ") ∧
      WordSized (.tile 0 (-2147483648) 2147483647 '\t' none) ∧
      decode (payload (.tile 0 (-2147483648) 2147483647 '\t' none)) =
        .ok (.tile 0 (-2147483648) 2147483647 ' ' none) := by
  have message : WordSized (.message 18446744073709551615 "\"\\\"\\\\ \x7f\x00𝄞\n") :=
    show 18446744073709551615 < UInt64.size by decide
  have tile : WordSized (.tile 0 (-2147483648) 2147483647 '\t' none) :=
    ⟨by decide, by simp⟩
  refine ⟨message, ?_, tile, ?_⟩
  · apply (decode_inverts_render.1 _ message).trans
    exact congrArg Except.ok (by decide +kernel)
  · exact decode_inverts_render.1 _ tile

end Frame

end TileRoom
