import TileRoom.Proofs.RequestArguments

/-! Targets and requests. A request read from the target it was written as is that request,
unless a text in it is empty: that text is lost, and the request is refused for it. -/

namespace TileRoom

namespace Numeral

theorem decimal_ne_nil (number : Nat) : decimal number ≠ [] := by
  rw [decimal, ne_eq, List.map_eq_nil_iff]
  exact digits_ne_nil 10 number

theorem signedDecimal_ne_nil (value : Int) : signedDecimal value ≠ [] := by
  cases value with
  | ofNat number => exact decimal_ne_nil number
  | negSucc number => exact List.cons_ne_nil _ _

end Numeral

theorem PersonId.text_ne_nil (id : PersonId) : PersonId.text id ≠ [] := by
  rw [← List.length_pos_iff, PersonId.text_length]
  decide

namespace Request

def WordSized : Request → Prop
  | .watchPerson _ number | .moveTile _ number _ _ => number < UInt64.size
  | _ => True

def texts : Request → List String
  | .newPerson room name => [room, name]
  | .sendMessage _ text => [text]
  | _ => []

theorem placed_arguments (request : Request) (sized : request.WordSized) :
    List.zipWith Slot.read? request.route.slots request.arguments = request.values.map some := by
  cases request <;>
    simp_all [Request.route, Route.slots, arguments, values, Slot.read?, ArgumentKind.read?,
      WordSized, PersonId.parse?_text, Numeral.readWord?_decimal,
      Numeral.readCoordinate?_signedDecimal]

theorem arguments_filled (request : Request) (named : "" ∉ request.texts) :
    request.arguments.filter (!·.isEmpty) = request.arguments := by
  have filled : ∀ argument ∈ request.arguments, argument ≠ [] := by
    cases request <;>
      simp_all [arguments, texts, PersonId.text_ne_nil, Numeral.decimal_ne_nil,
        Numeral.signedDecimal_ne_nil, eq_comm (a := "")]
  apply List.filter_eq_self.2
  intro argument member
  simpa using filled argument member

theorem arguments_length (request : Request) :
    request.arguments.length = request.route.slots.length := by
  cases request <;> simp only [arguments, Request.route, Route.slots, List.length_cons, List.length_nil]

theorem arguments_lost (request : Request) (empty : "" ∈ request.texts) :
    faults request.route.slots (request.arguments.filter (!·.isEmpty)) = [] ∧
      (request.arguments.filter (!·.isEmpty)).length < request.route.slots.length := by
  constructor
  · cases request with
    | newPerson room name =>
      generalize (newPerson room name).arguments.filter (!·.isEmpty) = left
      match left with
      | [] | [_] | _ :: _ :: _ => rfl
    | sendMessage id text =>
      obtain rfl : "" = text := by simpa [texts] using empty
      have left : (sendMessage id "").arguments.filter (!·.isEmpty) = [PersonId.text id] := by
        simp [arguments, PersonId.text_ne_nil]
      have placed : List.zipWith Slot.read? (sendMessage id "").route.slots [PersonId.text id] =
          [ArgumentValue.id id].map some := by
        simp [Request.route, Route.slots, Slot.read?, ArgumentKind.read?, PersonId.parse?_text]
      rw [left]
      exact faults_of_placed placed
    | watchPerson | startTyping | stopTyping | keepAlive | leave | shout | turn | moveTile =>
      cases empty
  · rw [← arguments_length]
    apply List.length_filter_lt_length_iff_exists.2
    refine ⟨"".toList, ?_, by simp⟩
    cases request with
    | newPerson room name => exact List.mem_map_of_mem (f := String.toList) (l := [room, name]) empty
    | sendMessage id text =>
      exact List.mem_cons_of_mem _ (List.mem_map_of_mem (f := String.toList) (l := [text]) empty)
    | watchPerson | startTyping | stopTyping | keepAlive | leave | shout | turn | moveTile =>
      cases empty

/-- A request is read from its target as it was written. An empty text makes it one argument
short, and no target is read as another request. -/
theorem parse_rendered (request : Request) (sized : request.WordSized) :
    ("" ∉ request.texts → parse (String.ofList request.target) = .ok request) ∧
      ("" ∈ request.texts →
        parse (String.ofList request.target) = .error (.missingArgument request.route)) ∧
      ∀ other, parse (String.ofList request.target) = .ok other → other = request := by
  have order := readInOrder request.route (request.arguments.filter (!·.isEmpty))
  rw [← parse_target] at order
  have whole (named : "" ∉ request.texts) : parse (String.ofList request.target) = .ok request := by
    have placed := placed_arguments request sized
    rw [arguments_filled request named] at order
    have suited : ∃ found, parse (String.ofList request.target) = .ok found :=
      order.accepted.2 ⟨faults_of_placed placed, arguments_length request⟩
    obtain ⟨found, read⟩ := suited
    obtain ⟨same, carried⟩ := order.placed found read
    have values : found.values = request.values :=
      (List.map_inj_right fun _ _ => Option.some.inj).1 (carried.symm.trans placed)
    rw [read, eq_of_values same values]
  have short (empty : "" ∈ request.texts) :
      parse (String.ofList request.target) = .error (.missingArgument request.route) :=
    order.missing.2 (arguments_lost request empty)
  refine ⟨whole, short, ?_⟩
  intro other read
  by_cases empty : "" ∈ request.texts
  · rw [short empty] at read
    cases read
  · rw [whole empty] at read
    exact (Except.ok.inj read).symm

/-- Texts with separators and percent signs in them, coordinates at the ends of their range,
and an empty name. -/
theorem parse_rendered_separators :
    parse (String.ofList (newPerson "ĉambro & co" "a=b?%=").target) =
        .ok (newPerson "ĉambro & co" "a=b?%=") ∧
      WordSized (moveTile 0 18446744073709551615 (-2147483648) 2147483647) ∧
      parse (String.ofList (moveTile 0 18446744073709551615 (-2147483648) 2147483647).target) =
        .ok (moveTile 0 18446744073709551615 (-2147483648) 2147483647) ∧
      parse (String.ofList (newPerson "lobby" "").target) =
        .error (.missingArgument .newPerson) := by
  have sized : WordSized (moveTile 0 18446744073709551615 (-2147483648) 2147483647) :=
    show 18446744073709551615 < UInt64.size by decide
  refine ⟨?_, sized, ?_, ?_⟩
  · exact (parse_rendered (newPerson "ĉambro & co" "a=b?%=") trivial).1 (by simp [texts])
  · exact (parse_rendered _ sized).1 (by simp [texts])
  · exact (parse_rendered (newPerson "lobby" "") trivial).2.1 (by simp [texts])

/-- A piece of a query with an equals sign at its end and none before. -/
def EndsInOnlyEquals (piece : List Char) : Prop :=
  ∃ name, piece = name ++ ['='] ∧ '=' ∉ name

def pieceArgument (piece : List Char) : List Char :=
  argument (Form.pair (Utf8.encode piece)).1 (Form.pair (Utf8.encode piece)).2

theorem pieceArgument_eq (piece : List Char) (kept : ¬EndsInOnlyEquals piece) :
    pieceArgument piece = Form.decode (Utf8.encode piece) := by
  by_cases equals : '=' ∈ piece
  · obtain ⟨name, value, split, absent⟩ := List.eq_append_cons_of_mem equals
    have filled : value ≠ [] := by
      rintro rfl
      exact kept ⟨name, split, absent⟩
    have bytes : Utf8.encode piece = Utf8.encode name ++ 0x3D :: Utf8.encode value := by
      rw [split, Utf8.encode_append]
      rfl
    have decoded : (Form.decode (Utf8.encode value)).isEmpty = false := by
      rw [List.isEmpty_eq_false_iff]
      apply Form.decode_ne_nil
      rwa [ne_eq, Utf8.encode_eq_nil_iff]
    have cut := Cut.first?_append (Utf8.encode name) (Utf8.encode value)
      (Utf8.not_mem_encode (c := '=') (by decide) absent)
    have pair : Form.pair (Utf8.encode piece) =
        (Form.decode (Utf8.encode name), Form.decode (Utf8.encode value)) := by
      rw [Form.pair, bytes]
      exact cut ▸ rfl
    rw [pieceArgument, pair, argument, decoded, if_neg Bool.false_ne_true, bytes,
      Form.decode_append_equals]
  · have cut := Cut.first?_plain _ (Utf8.not_mem_encode (c := '=') (by decide) equals)
    have pair : Form.pair (Utf8.encode piece) = (Form.decode (Utf8.encode piece), []) := by
      rw [Form.pair]
      exact cut ▸ rfl
    rw [pieceArgument, pair]
    rfl

theorem splitQuery_pieces (pieces : List (List Char))
    (whole : ∀ piece ∈ pieces, piece ≠ [] ∧ '&' ∉ piece) :
    splitQuery (List.intercalate ['&'] pieces) = pieces.map pieceArgument := by
  cases pieces with
  | nil => rfl
  | cons first rest =>
    have cut := Cut.all_intercalate 0x26 (Utf8.encode first) (rest.map Utf8.encode) (by
      rw [← List.map_cons]
      intro part member
      obtain ⟨piece, inside, rfl⟩ := List.mem_map.1 member
      exact Utf8.not_mem_encode (c := '&') (by decide) (whole piece inside).2)
    have filled : ∀ part ∈ (first :: rest).map Utf8.encode, !part.isEmpty := by
      intro part member
      obtain ⟨piece, inside, rfl⟩ := List.mem_map.1 member
      simpa [Utf8.encode_eq_nil_iff] using (whole piece inside).1
    rw [splitQuery, Form.pairs, Utf8.encode_intercalate, List.map_cons, cut, ← List.map_cons,
      List.filter_eq_self.2 filled, List.map_map, List.map_map]
    rfl

/-- What stands between the ampersands of a query are its arguments, one for each piece and
in their order, each read as a whole. They are then read by their places. -/
theorem parse_pieces (route : Route) (pieces : List (List Char))
    (whole : ∀ piece ∈ pieces, piece ≠ [] ∧ '&' ∉ piece) :
    ∃ arguments : List (List Char), arguments.length = pieces.length ∧
      (∀ (place : Nat) piece, pieces[place]? = some piece → ¬EndsInOnlyEquals piece →
        arguments[place]? = some (Form.decode (Utf8.encode piece))) ∧
      ReadInOrder route arguments
        (parse (String.ofList ('/' :: route.name.toList ++ '?' :: List.intercalate ['&'] pieces))) := by
  refine ⟨pieces.map pieceArgument, List.length_map .., ?_, ?_⟩
  · intro place piece found kept
    rw [List.getElem?_map, found, Option.map_some, pieceArgument_eq piece kept]
  · rw [parse_route, splitQuery_pieces pieces whole]
    exact readInOrder route _

/-- A text with equals signs inside and at its end, and one that is encoded. -/
theorem parse_pieces_equals :
    (∀ piece ∈ ["00000000000000ff".toList, "a=b+%26=".toList], piece ≠ [] ∧ '&' ∉ piece) ∧
      ∃ arguments : List (List Char), arguments.length = 2 ∧
        arguments[1]? = some "a=b &=".toList ∧
        ReadInOrder .sendMessage arguments (parse "/send_message?00000000000000ff&a=b+%26=") := by
  have whole : ∀ piece ∈ ["00000000000000ff".toList, "a=b+%26=".toList], piece ≠ [] ∧ '&' ∉ piece := by
    decide
  have inner : ¬EndsInOnlyEquals "a=b+%26=".toList := by
    rintro ⟨name, split, absent⟩
    have ends : "a=b+%26".toList ++ ['='] = name ++ ['='] := split
    have same : "a=b+%26".toList = name := List.append_cancel_right ends
    rw [← same] at absent
    exact absent (by decide)
  obtain ⟨arguments, each, texts, order⟩ := parse_pieces .sendMessage _ whole
  exact ⟨whole, arguments, each, texts 1 _ rfl inner, order⟩

/-- One argument of two, and yet it is the fault in it that is named. A single equals sign at
the end of a piece is lost, and an empty piece is passed over. -/
theorem parse_fault_before_count :
    (1 < Route.watchPerson.slots.length ∧
        parse "/watch_person?x" = .error (.invalidArgument .personId "x")) ∧
      (Form.decode (bytesOf "a=") = "a=".toList ∧
        parse "/send_message?00000000000000FF&a=" = .ok (.sendMessage 0xFF "a")) ∧
      parse "/new_person?&Ann" = .error (.missingArgument .newPerson) :=
  ⟨⟨by decide, rfl⟩, ⟨rfl, rfl⟩, rfl⟩

end Request

end TileRoom
