import TileRoom.Proofs.JsonText
import TileRoom.Proofs.Text.Encoding

/-! A frame that was sent is read as the frame that was sent, but for its text: each
control character and blank below or at the space arrives as a space. -/

namespace TileRoom

def spacedText (text : String) : String :=
  String.ofList (text.toList.map Json.spaced)

namespace Frame

def received : Frame → Frame
  | .playerName num name => .playerName num (spacedText name)
  | .message person text => .message person (spacedText text)
  | .tile num x y letter lastPlayer => .tile num x y (Json.spaced letter) lastPlayer
  | frame => frame

/-- Whether the numbers of a frame fit 64 bits; frames with an unknown tag are never
sent. -/
def WordSized : Frame → Prop
  | .header num _ | .playerName num _ | .player num _ _ | .message num _ | .shout num _ =>
      num < UInt64.size
  | .tile num _ _ _ lastPlayer => num < UInt64.size ∧ ∀ player ∈ lastPlayer, player < UInt64.size
  | .finish | .padding => True
  | .unknown _ => False

end Frame

namespace Json

def numberField (name : String) (number : Nat) : Field :=
  ⟨name, Numeral.decimal number, .number (.integer number), .number (.integer number)⟩

def coordinateField (name : String) (value : Int32) : Field :=
  ⟨name, Numeral.signedDecimal value.toInt, .number (.integer value.toInt),
    .number (.integer value.toInt)⟩

def boolField (name : String) (value : Bool) : Field :=
  ⟨name, Frame.boolText value, .bool value, .bool value⟩

def textField (name : String) (text : List Char) : Field :=
  ⟨name, Frame.quoted text, .string (String.ofList (text.map spaced)),
    .string (String.ofList (text.map spaced))⟩

def optionalField (name : String) : Option Nat → Field
  | some number => numberField name number
  | none => ⟨name, "null".toList, .null, .null⟩

variable {name : String} (plain : ∀ c ∈ name.toList, Plain c)

include plain

theorem numberField_sound (number : Nat) (fits : number < UInt64.size) :
    (numberField name number).Sound :=
  ⟨plain, reads_decimal number fits, fun _ => rfl⟩

theorem coordinateField_sound (value : Int32) : (coordinateField name value).Sound :=
  ⟨plain, reads_coordinate value, fun _ => rfl⟩

theorem boolField_sound (value : Bool) : (boolField name value).Sound :=
  ⟨plain, reads_bool value, fun _ => rfl⟩

theorem textField_sound (text : List Char) : (textField name text).Sound :=
  ⟨plain, reads_quoted text, fun _ => rfl⟩

theorem optionalField_sound (number : Option Nat) (fits : ∀ value ∈ number, value < UInt64.size) :
    (optionalField name number).Sound := by
  cases number with
  | none => exact ⟨plain, reads_null, fun _ => rfl⟩
  | some value => exact numberField_sound plain value (fits value rfl)

end Json

namespace Frame

open Json

theorem lastNamed?_absent (name : String) (fields : List Field)
    (absent : name ∉ fields.map (·.name)) :
    lastNamed? name (fields.map fun field => (field.name, field.value)) = none := by
  induction fields with
  | nil => rfl
  | cons first rest ih =>
    rw [List.map_cons, List.mem_cons, not_or] at absent
    rw [List.map_cons, lastNamed?, ih absent.2]
    simp only [if_neg (Ne.symm absent.1)]

theorem lastNamed?_field (fields : List Field) (distinct : (fields.map (·.name)).Nodup)
    (field : Field) (member : field ∈ fields) :
    lastNamed? field.name (fields.map fun field => (field.name, field.value)) = some field.value := by
  induction fields with
  | nil => cases member
  | cons first rest ih =>
    rw [List.map_cons] at distinct
    obtain ⟨fresh, distinct⟩ := List.nodup_cons.1 distinct
    rw [List.map_cons, lastNamed?]
    rcases List.mem_cons.1 member with rfl | later
    · rw [lastNamed?_absent field.name rest fresh]
      simp
    · rw [ih distinct later]

theorem recordFields?_plain {tag : String} {names : List String}
    (known : recordFields? tag = some names) :
    (∀ c ∈ tag.toList, Plain c) ∧ names.Nodup ∧ ∀ name ∈ names, ∀ c ∈ name.toList, Plain c := by
  unfold recordFields? at known
  split at known <;> cases known
  all_goals exact ⟨by decide, by decide, by decide⟩

theorem decode_line (tag : String) (fields : List Field)
    (known : recordFields? tag = some (fields.map (·.name))) (nonempty : fields ≠ [])
    (readable : ∀ field ∈ fields, (∀ c ∈ field.name.toList, Plain c) → field.Sound) :
    decode (Utf8.encode (line tag (fields.map fun field => (field.name, field.text)))) =
      ofFields tag (fields.map (·.value)) := by
  obtain ⟨plain, distinct, names⟩ := recordFields?_plain known
  have sound : ∀ field ∈ fields, field.Sound := by
    intro field member
    exact readable field member (names field.name (List.mem_map_of_mem member))
  have values : (fields.map (·.name)).map (fun name =>
      (lastNamed? name (fields.map fun field => (field.name, field.value))).getD .null) =
      fields.map (·.value) := by
    rw [List.map_map]
    apply List.map_congr_left
    intro field member
    rw [Function.comp_apply, lastNamed?_field fields distinct field member, Option.getD_some]
  have proper : tag ≠ "end" ∧ tag ≠ "padding" := by
    constructor <;> rintro rfl <;> cases known
  unfold decode
  rw [Utf8.decode?_encode, Option.bind_some, parse?_line tag plain fields nonempty sound]
  change ofTagged tag [_] = _
  rw [ofTagged.eq_def, if_neg proper.1, if_neg proper.2, known]
  simp only [Value.fields?, values]
  rfl

theorem wellFormed_some {α : Type} (value : α) : wellFormed (some value) = .ok value := rfl

theorem word?_number (number : Nat) (fits : number < UInt64.size) :
    (Value.number (.integer number)).word? = some number := by
  change (if number < UInt64.size then some number else none) = _
  rw [if_pos fits]

theorem coordinate?_number (value : Int32) :
    (Value.number (.integer value.toInt)).coordinate? = some value := by
  have least := value.le_toInt
  have greatest := value.toInt_lt
  change (if _ then some (Int32.ofInt value.toInt) else none) = _
  rw [if_pos ⟨least, greatest⟩, Int32.ofInt_toInt]

theorem optionalWord?_field (name : String) (number : Option Nat)
    (fits : ∀ value ∈ number, value < UInt64.size) :
    (optionalField name number).value.optionalWord? = some number := by
  cases number with
  | none => rfl
  | some value =>
    change ((Value.number (.integer value)).word?).map some = _
    rw [word?_number value (fits value rfl)]
    rfl

theorem upper_text_plain (id : PersonId) : (PersonId.text id).map spaced = PersonId.text id := by
  have digits : ∀ digit < 16, spaced (Numeral.upperDigit digit) = Numeral.upperDigit digit := by
    decide
  unfold PersonId.text
  rw [List.map_map]
  apply List.map_congr_left
  intro digit member
  exact digits digit (Numeral.fixedDigits_lt 16 16 id.toNat (by omega) digit member)

attribute [local simp] ofFields

theorem decode_header (num : Nat) (id : PersonId) (fits : num < UInt64.size) :
    decode (payload (.header num id)) = .ok (.header num id) := by
  have read := decode_line "header" [numberField "num" num, textField "id" (PersonId.text id)]
    rfl (by simp) (by
      simp only [List.forall_mem_cons]
      exact ⟨fun plain => numberField_sound plain num fits, fun plain => textField_sound plain _,
        by simp⟩)
  apply read.trans
  simp only [List.map_cons, List.map_nil, ofFields, numberField, textField, word?_number num fits,
    wellFormed_some, Value.string?, upper_text_plain, PersonId.readBelow?_text, bind, Except.bind,
    String.toList_ofList]
  simp

theorem decode_playerName (num : Nat) (name : String) (fits : num < UInt64.size) :
    decode (payload (.playerName num name)) = .ok (.playerName num (spacedText name)) := by
  have read := decode_line "player-name" [numberField "num" num, textField "name" name.toList]
    rfl (by simp) (by
      simp only [List.forall_mem_cons]
      exact ⟨fun plain => numberField_sound plain num fits, fun plain => textField_sound plain _,
        by simp⟩)
  apply read.trans
  simp only [List.map_cons, List.map_nil, ofFields, numberField, textField, word?_number num fits,
    wellFormed_some, Value.string?, bind, Except.bind]
  rfl

theorem decode_player (num : Nat) (connected typing : Bool) (fits : num < UInt64.size) :
    decode (payload (.player num connected typing)) = .ok (.player num connected typing) := by
  have read := decode_line "player"
    [numberField "num" num, boolField "connected" connected, boolField "typing" typing]
    rfl (by simp) (by
      simp only [List.forall_mem_cons]
      exact ⟨fun plain => numberField_sound plain num fits, fun plain => boolField_sound plain _,
        fun plain => boolField_sound plain _, by simp⟩)
  apply read.trans
  simp only [List.map_cons, List.map_nil, ofFields, numberField, boolField, word?_number num fits,
    wellFormed_some, Value.bool?, bind, Except.bind]
  rfl

theorem decode_message (person : Nat) (text : String) (fits : person < UInt64.size) :
    decode (payload (.message person text)) = .ok (.message person (spacedText text)) := by
  have read := decode_line "message" [numberField "person" person, textField "text" text.toList]
    rfl (by simp) (by
      simp only [List.forall_mem_cons]
      exact ⟨fun plain => numberField_sound plain person fits,
        fun plain => textField_sound plain _, by simp⟩)
  apply read.trans
  simp only [List.map_cons, List.map_nil, ofFields, numberField, textField, word?_number person fits,
    wellFormed_some, Value.string?, bind, Except.bind]
  rfl

theorem decode_shout (num : Nat) (shouting : Bool) (fits : num < UInt64.size) :
    decode (payload (.shout num shouting)) = .ok (.shout num shouting) := by
  have read := decode_line "shout" [numberField "num" num, boolField "shouting" shouting]
    rfl (by simp) (by
      simp only [List.forall_mem_cons]
      exact ⟨fun plain => numberField_sound plain num fits, fun plain => boolField_sound plain _,
        by simp⟩)
  apply read.trans
  simp only [List.map_cons, List.map_nil, ofFields, numberField, boolField, word?_number num fits,
    wellFormed_some, Value.bool?, bind, Except.bind]
  rfl

theorem optionalField_name (name : String) (number : Option Nat) :
    (optionalField name number).name = name := by
  cases number <;> rfl

theorem optionalField_text (name : String) (number : Option Nat) :
    (optionalField name number).text = optionalText number := by
  cases number <;> rfl

theorem decode_tile (num : Nat) (x y : Int32) (letter : Char) (lastPlayer : Option Nat)
    (fits : num < UInt64.size) (playerFits : ∀ player ∈ lastPlayer, player < UInt64.size) :
    decode (payload (.tile num x y letter lastPlayer)) =
      .ok (.tile num x y (spaced letter) lastPlayer) := by
  have read := decode_line "tile" [numberField "num" num, coordinateField "x" x,
      coordinateField "y" y, textField "letter" [letter], optionalField "last-player" lastPlayer]
    (by simp only [List.map_cons, optionalField_name]; rfl) (by simp) (by
      simp only [List.forall_mem_cons, optionalField_name]
      exact ⟨fun plain => numberField_sound plain num fits,
        fun plain => coordinateField_sound plain x, fun plain => coordinateField_sound plain y,
        fun plain => textField_sound plain [letter],
        fun plain => optionalField_sound plain lastPlayer playerFits, by simp⟩)
  simp only [List.map_cons, List.map_nil, optionalField_name, optionalField_text] at read
  apply read.trans
  simp only [ofFields, numberField, coordinateField, textField, word?_number num fits,
    coordinate?_number, optionalWord?_field _ _ playerFits, wellFormed_some, Value.string?, bind,
    Except.bind, List.map_cons, List.map_nil, String.toList_ofList]

theorem ok_of_toOption {α : Type} {result : Except FrameError α} {value : α}
    (some : result.toOption = some value) : result = .ok value := by
  cases result with
  | error => cases some
  | ok found => exact congrArg Except.ok (Option.some.inj some)

theorem decode_payload (frame : Frame) (sized : frame.WordSized) :
    decode frame.payload = .ok frame.received := by
  cases frame with
  | header num id => exact decode_header num id sized
  | playerName num name => exact decode_playerName num name sized
  | player num connected typing => exact decode_player num connected typing sized
  | message person text => exact decode_message person text sized
  | shout num shouting => exact decode_shout num shouting sized
  | tile num x y letter lastPlayer => exact decode_tile num x y letter lastPlayer sized.1 sized.2
  | finish => exact ok_of_toOption (by decide +kernel)
  | padding => exact ok_of_toOption (by decide +kernel)
  | unknown => exact absurd sized id

theorem decode_padding : ∀ text ∈ paddingTexts,
    decode (bytesOf text) = .ok .padding ∧ 0 < (bytesOf text).length ∧
      (bytesOf text).length < 512 := by
  have checked : ∀ text ∈ paddingTexts, (decode (bytesOf text)).toOption = some .padding ∧
      0 < (bytesOf text).length ∧ (bytesOf text).length < 512 := by
    simp only [paddingTexts, List.forall_mem_cons, String.toList_append, bytesOf]
    repeat rw [String.toList_ofList]
    refine ⟨?_, ?_, ?_, ?_, by simp⟩ <;> decide +kernel
  exact fun text member => ⟨ok_of_toOption (checked text member).1, (checked text member).2⟩

def IsTextless : Frame → Prop
  | .playerName _ _ | .message _ _ | .unknown _ => False
  | _ => True

theorem decimal_length_le (number : Nat) (fits : number < UInt64.size) :
    (Numeral.decimal number).length ≤ 20 := by
  rw [Numeral.decimal_length_le number 20 (by omega)]
  simp only [UInt64.size] at fits
  omega

theorem signedDecimal_length_le (value : Int32) :
    (Numeral.signedDecimal value.toInt).length ≤ 21 := by
  have least := value.le_toInt
  have greatest := value.toInt_lt
  cases form : value.toInt with
  | ofNat number =>
    rw [form, Int.ofNat_eq_natCast] at greatest
    have short := decimal_length_le number (by simp only [UInt64.size]; omega)
    rw [Numeral.signedDecimal]
    omega
  | negSucc number =>
    rw [form] at least
    have short := decimal_length_le (number + 1) (by simp only [UInt64.size]; omega)
    rw [Numeral.signedDecimal, List.length_cons]
    omega

theorem quoted_length_le (text : List Char) : (quoted text).length ≤ 2 * text.length + 2 := by
  have escaped : (escape text).length ≤ 2 * text.length := by
    induction text with
    | nil => simp [escape]
    | cons c rest ih =>
      have first : (escapeChar c).length ≤ 2 := by
        unfold escapeChar
        split
        · simp
        split <;> simp
      rw [escape, List.flatMap_cons, ← escape, List.length_append, List.length_cons]
      omega
  simp only [quoted, List.cons_append, List.length_cons, List.length_append, List.length_nil]
  omega

theorem boolText_length_le (value : Bool) : (boolText value).length ≤ 5 := by
  cases value <;> decide

theorem optionalText_length_le (number : Option Nat)
    (fits : ∀ value ∈ number, value < UInt64.size) : (optionalText number).length ≤ 20 := by
  cases number with
  | none => decide
  | some value => exact decimal_length_le value (fits value rfl)

theorem members_length_le (fields : List (String × List Char))
    (short : ∀ field ∈ fields, field.1.length ≤ 11 ∧ field.2.length ≤ 34) :
    (members fields).length ≤ 51 * fields.length := by
  fun_induction members fields with
  | case1 => simp
  | case2 name value =>
    have first : name.length ≤ 11 ∧ value.length ≤ 34 := short (name, value) (List.mem_cons_self ..)
    simp only [List.length_append, List.length_cons, List.length_nil, String.length_toList]
    change name.length + 1 + 3 + value.length ≤ _
    omega
  | case3 name value rest more ih =>
    have first : name.length ≤ 11 ∧ value.length ≤ 34 := short (name, value) (List.mem_cons_self ..)
    have others := ih fun field member => short field (List.mem_cons_of_mem _ member)
    simp only [List.length_append, List.length_cons, String.length_toList]
    change name.length + 1 + 3 + value.length + 2 + _ ≤ _
    omega

theorem recordFields?_short {tag : String} {names : List String}
    (known : recordFields? tag = some names) :
    tag.length ≤ 11 ∧ names.length ≤ 5 ∧ ∀ name ∈ names, name.length ≤ 11 := by
  unfold recordFields? at known
  split at known <;> cases known
  all_goals decide

theorem line_length_le (tag : String) (fields : List (String × List Char))
    (known : recordFields? tag = some (fields.map (·.1)))
    (short : ∀ field ∈ fields, field.2.length ≤ 34) :
    (line tag fields).length ≤ 276 := by
  obtain ⟨tagged, few, names⟩ := recordFields?_short known
  rw [List.length_map] at few
  have body := members_length_le fields fun field member =>
    ⟨names field.1 (List.mem_map_of_mem member), short field member⟩
  simp only [line, List.length_append, String.length_toList]
  change 2 + tag.length + 4 + _ + 4 ≤ _
  omega

theorem render_length_le (frame : Frame) (sized : frame.WordSized) (short : frame.IsTextless) :
    frame.render.length ≤ 276 := by
  cases frame with
  | header num id =>
    have number := decimal_length_le num sized
    have text := quoted_length_le (PersonId.text id)
    rw [PersonId.text_length] at text
    apply line_length_le _ _ rfl
    simp only [List.forall_mem_cons]
    exact ⟨by omega, by omega, by simp⟩
  | playerName | message | unknown => exact absurd short id
  | player num connected typing =>
    have number := decimal_length_le num sized
    have one := boolText_length_le connected
    have other := boolText_length_le typing
    apply line_length_le _ _ rfl
    simp only [List.forall_mem_cons]
    exact ⟨by omega, by omega, by omega, by simp⟩
  | shout num shouting =>
    have number := decimal_length_le num sized
    have flag := boolText_length_le shouting
    apply line_length_le _ _ rfl
    simp only [List.forall_mem_cons]
    exact ⟨by omega, by omega, by simp⟩
  | tile num x y letter lastPlayer =>
    have number := decimal_length_le num sized.1
    have across := signedDecimal_length_le x
    have down := signedDecimal_length_le y
    have text := quoted_length_le [letter]
    rw [List.length_singleton] at text
    have last := optionalText_length_le lastPlayer sized.2
    apply line_length_le _ _ rfl
    simp only [List.forall_mem_cons]
    exact ⟨by omega, by omega, by omega, by omega, by omega, by simp⟩
  | finish => decide
  | padding => decide

theorem payload_length_lt (frame : Frame) (sized : frame.WordSized) (short : frame.IsTextless) :
    frame.payload.length < 16 ^ 3 := by
  have encoded := Utf8.encode_length_le frame.render
  have rendered := render_length_le frame sized short
  rw [payload]
  omega

theorem payload_nonempty (frame : Frame) : 0 < frame.payload.length := by
  have first (c : Char) (rest : List Char) : 0 < (Utf8.encode (c :: rest)).length := by
    rw [Utf8.encode, List.flatMap_cons, List.length_append]
    have := (Utf8.encodeChar_length c).1
    omega
  cases frame <;> exact first '[' _

end Frame

end TileRoom
