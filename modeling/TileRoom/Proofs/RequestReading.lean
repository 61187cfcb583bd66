import TileRoom.Proofs.Text.Forms
import TileRoom.Request

/-! Requests read back from their targets. The route is always the one that was written,
and so are the arguments but for empty ones, which are lost. -/

namespace TileRoom

theorem Utf8.encode_intercalate (parts : List (List Char)) :
    encode (List.intercalate ['&'] parts) = List.intercalate [0x26] (parts.map encode) := by
  induction parts with
  | nil => rfl
  | cons first rest ih =>
    cases rest with
    | nil => rw [List.map_cons, List.map_nil, List.intercalate_singleton, List.intercalate_singleton]
    | cons second others =>
      rw [List.intercalate_cons_cons, encode_append, encode_append, ih]
      exact (List.intercalate_cons_cons ..).symm

namespace Request

theorem encode_isEmpty (text : List Char) : (Utf8.encode (Form.encode text)).isEmpty = text.isEmpty := by
  cases text with
  | nil => rfl
  | cons c rest =>
    apply List.isEmpty_eq_false_iff.2
    intro none
    have read := Form.decode_encode (c :: rest)
    rw [none] at read
    cases read

/-- A query falls apart into the texts it was made of, but for empty ones. -/
theorem splitQuery_encoded (first : List Char) (texts : List (List Char)) :
    splitQuery (List.intercalate ['&'] ((first :: texts).map Form.encode)) =
      (first :: texts).filter (!·.isEmpty) := by
  have plain (text : List Char) (byte : UInt8) (member : byte ∈ Utf8.encode (Form.encode text)) :
      byte ≠ 0x26 ∧ byte ≠ 0x3D := by
    rw [Utf8.encode_ascii _ fun c inside => (Form.encode_plain text c inside).1] at member
    obtain ⟨c, inside, rfl⟩ := List.mem_map.1 member
    obtain ⟨small, apart⟩ := Form.encode_plain text c inside
    have same : (UInt8.ofNat c.toNat).toNat = c.toNat := Utf8.toNat_ofNat _ (by omega)
    exact ⟨fun wrong => apart.1 (by rw [← same, wrong]; rfl), fun wrong => apart.2.1 (by rw [← same, wrong]; rfl)⟩
  have pair (text : List Char) : Form.pair (Utf8.encode (Form.encode text)) = (text, []) := by
    rw [Form.pair, Cut.first?_plain _ fun member => (plain text _ member).2 rfl]
    exact congrArg (·, []) (Form.decode_encode text)
  have bytes : ((first :: texts).map Form.encode).map Utf8.encode =
      (first :: texts).map fun text => Utf8.encode (Form.encode text) := List.map_map
  have cut := Cut.all_intercalate 0x26 (Utf8.encode (Form.encode first))
    (texts.map fun text => Utf8.encode (Form.encode text)) (by
      rw [← List.map_cons (f := fun text => Utf8.encode (Form.encode text))]
      intro part member inside
      obtain ⟨text, _, rfl⟩ := List.mem_map.1 member
      exact (plain text _ inside).1 rfl)
  have kept : ((fun part : Bytes => !part.isEmpty) ∘ fun text => Utf8.encode (Form.encode text)) =
      fun text : List Char => !text.isEmpty := funext fun text => congrArg not (encode_isEmpty text)
  rw [splitQuery, Form.pairs, Utf8.encode_intercalate, bytes, List.map_cons, cut,
    ← List.map_cons (f := fun text => Utf8.encode (Form.encode text)), List.filter_map, kept, List.map_map,
    List.map_map]
  refine Eq.trans (List.map_congr_left ?_) (List.map_id _)
  intro text _
  rw [Function.comp_apply, Function.comp_apply, pair]
  rfl

theorem splitTarget_route (route : Route) (query : List Char) :
    splitTarget ('/' :: route.name.toList ++ '?' :: query) = (route.name.toList, query) := by
  have plain : '?' ∉ route.name.toList := by
    cases route <;> decide
  change (Cut.first? '?' (route.name.toList ++ '?' :: query)).getD _ = _
  rw [Cut.first?_append _ _ plain, Option.getD_some]

theorem parse_route (route : Route) (query : List Char) :
    parse (String.ofList ('/' :: route.name.toList ++ '?' :: query)) =
      ((read route).run (splitQuery query)).bind fun found =>
        if found.2.isEmpty then .ok found.1 else .error (.tooManyArguments route) := by
  unfold parse
  rw [String.toList_ofList, splitTarget_route]
  simp only [String.ofList_toList, Route.ofName?_name]
  rfl

theorem parse_target (request : Request) :
    parse (String.ofList request.target) =
      ((read request.route).run (request.arguments.filter (!·.isEmpty))).bind fun found =>
        if found.2.isEmpty then .ok found.1 else .error (.tooManyArguments request.route) := by
  have query : splitQuery (List.intercalate ['&'] (request.arguments.map Form.encode)) =
      request.arguments.filter (!·.isEmpty) := by
    cases request <;> exact splitQuery_encoded _ _
  rw [← query]
  exact parse_route request.route _

theorem parse_newPerson {room name : String} {request : Request}
    (read : parse (String.ofList (Request.newPerson room name).target) = .ok request) :
    ∃ otherRoom otherName, request = .newPerson otherRoom otherName := by
  rw [parse_target] at read
  generalize (Request.newPerson room name).arguments.filter (!·.isEmpty) = arguments at read
  match arguments with
  | [] => cases read
  | [_] => cases read
  | [first, second] =>
    obtain rfl := Except.ok.inj read
    exact ⟨_, _, rfl⟩
  | _ :: _ :: _ :: _ => cases read

theorem parse_newPerson_text {room name : String} (roomText : room.toList ≠ []) (nameText : name.toList ≠ []) :
    parse (String.ofList (Request.newPerson room name).target) = .ok (.newPerson room name) := by
  have kept : (Request.newPerson room name).arguments.filter (!·.isEmpty) = [room.toList, name.toList] := by
    simp [arguments, roomText, nameText]
  have found : (Request.read .newPerson).run [room.toList, name.toList] =
      .ok (.newPerson (String.ofList room.toList) (String.ofList name.toList), []) := rfl
  rw [parse_target, kept]
  change (((Request.read .newPerson).run [room.toList, name.toList]).bind _) = _
  rw [found, String.ofList_toList, String.ofList_toList]
  rfl

theorem nextId_run (route : Route) (text : List Char) (rest : List (List Char)) :
    (nextId route).run (text :: rest) = (accept .personId text (PersonId.parse? text)).run rest := rfl

theorem nextNumber_run (route : Route) (kind : ArgumentKind) (text : List Char) (rest : List (List Char)) :
    (nextNumber route kind).run (text :: rest) = (accept kind text (Numeral.readWord? text)).run rest := rfl

theorem nextId_text (route : Route) (id : PersonId) (rest : List (List Char)) :
    (nextId route).run (PersonId.text id :: rest) = .ok (id, rest) := by
  rw [nextId_run, PersonId.parse?_text]
  rfl

theorem nextNumber_decimal (route : Route) (kind : ArgumentKind) (number : Nat) (rest : List (List Char)) :
    (nextNumber route kind).run (Numeral.decimal number :: rest) =
      if number < UInt64.size then .ok (number, rest)
      else .error (.invalidArgument kind (String.ofList (Numeral.decimal number))) := by
  rw [nextNumber_run, Numeral.readWord?_decimal]
  split <;> rfl

theorem read_watchPerson (arguments : List (List Char)) :
    (read .watchPerson).run arguments = ((nextId .watchPerson).run arguments).bind fun first =>
      ((nextNumber .watchPerson .messageNumber).run first.2).bind fun second =>
        .ok (.watchPerson first.1 second.1, second.2) := rfl

theorem parse_watchPerson (id : PersonId) (lastMessage : Nat) :
    parse (String.ofList (Request.watchPerson id lastMessage).target) =
      if lastMessage < UInt64.size then .ok (.watchPerson id lastMessage)
      else .error (.invalidArgument .messageNumber (String.ofList (Numeral.decimal lastMessage))) := by
  have idText : (PersonId.text id).isEmpty = false := by
    rw [List.isEmpty_eq_false_iff, ← List.length_pos_iff, PersonId.text_length]
    decide
  have number : (Numeral.decimal lastMessage).isEmpty = false := by
    rw [List.isEmpty_eq_false_iff, Numeral.decimal, ne_eq, List.map_eq_nil_iff]
    exact Numeral.digits_ne_nil 10 lastMessage
  have kept : (Request.watchPerson id lastMessage).arguments.filter (!·.isEmpty) =
      [PersonId.text id, Numeral.decimal lastMessage] := by
    simp only [arguments, List.filter_cons, idText, number, Bool.not_false, if_true, List.filter_nil]
  rw [parse_target, kept]
  change (((read .watchPerson).run [PersonId.text id, Numeral.decimal lastMessage]).bind _) = _
  rw [read_watchPerson, nextId_text]
  simp only [Except.bind]
  rw [nextNumber_decimal]
  by_cases fits : lastMessage < UInt64.size
  · rw [if_pos fits, if_pos fits]
    rfl
  · rw [if_neg fits, if_neg fits]

end Request

end TileRoom
