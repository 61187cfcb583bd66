import TileRoom.Proofs.PieceReading

/-! Cuts in a stream. A client that takes all pieces learns the same from them, however the
stream was cut. Where a piece is refused, what the client knows is told by the pieces before
it; of the refused piece it knows nothing, even if frames stand before the fault. -/

namespace TileRoom

namespace Connection

variable {connection : Connection} {one : Heard}

theorem receiveAll_cons_ok {piece : Bytes} (first : connection.receive piece = (.ok (), one)) (rest : List Bytes) :
    connection.receiveAll (piece :: rest) = ((one.connection.receiveAll rest).1,
      { (one.connection.receiveAll rest).2 with events := one.events ++ (one.connection.receiveAll rest).2.events }) := by
  rw [receiveAll, first]

theorem receiveAll_cons_error {piece : Bytes} {cause : ProtocolError}
    (first : connection.receive piece = (.error cause, one)) (rest : List Bytes) :
    connection.receiveAll (piece :: rest) = (.error cause, one) := by
  rw [receiveAll, first]

theorem receive_flatten {data : Bytes} (read : connection.receive data = (.ok (), one)) {pieces : List Bytes}
    (rest : (one.connection.receiveAll pieces).1 = .ok ()) :
    connection.receive (data ++ pieces.flatten) = (.ok (), { (one.connection.receiveAll pieces).2 with
      events := one.events ++ (one.connection.receiveAll pieces).2.events }) := by
  induction pieces generalizing data one with
  | nil =>
    rw [List.flatten_nil, List.append_nil, read, receiveAll, List.append_nil]
  | cons piece others ih =>
    cases first : one.connection.receive piece with
    | mk result next =>
      cases result with
      | error cause =>
        rw [receiveAll_cons_error first] at rest
        cases rest
      | ok =>
        rw [receiveAll_cons_ok first] at rest ⊢
        have whole := ih (receive_append read first) rest
        rw [List.flatten_cons, ← List.append_assoc, whole]
        simp only [Heard.onto, List.append_assoc]

theorem receive_nil_begun (connection : Connection) (key : String) :
    (connection.beginStream key).connection.receive [] =
      (.ok (), { connection := (connection.beginStream key).connection }) := by
  have begun := stream_beginStream connection key
  have heard : (IncomingStream.ofKey key).hear [] = .ok ([], .ofKey key) := rfl
  rw [receive_of_hear begun heard, List.foldl_nil, ← begun]

theorem receiveAll_eq_receive {key : String} {pieces : List Bytes}
    (read : ((connection.beginStream key).connection.receiveAll pieces).1 = .ok ()) :
    (connection.beginStream key).connection.receiveAll pieces =
      (connection.beginStream key).connection.receive pieces.flatten := by
  have whole := receive_flatten (receive_nil_begun connection key) read
  rw [List.nil_append] at whole
  rw [whole]
  exact Prod.ext read rfl

theorem receiveAll_error {pieces : List Bytes} {cause : ProtocolError}
    (failed : (connection.receiveAll pieces).1 = .error cause) :
    ∃ taken refused rest stream, pieces = taken ++ refused :: rest ∧ (connection.receiveAll taken).1 = .ok () ∧
      ((connection.receiveAll taken).2.connection.receive refused).1 = .error cause ∧
      (connection.receiveAll pieces).2 = (connection.receiveAll taken).2.onto stream [] := by
  induction pieces generalizing connection with
  | nil => cases failed
  | cons piece rest ih =>
    cases first : connection.receive piece with
    | mk result next =>
      cases result with
      | error found =>
        obtain ⟨stream, kept⟩ := receive_error first
        rw [receiveAll_cons_error first] at failed ⊢
        exact ⟨[], piece, rest, stream, rfl, rfl, (congrArg Prod.fst first).trans failed, kept⟩
      | ok =>
        rw [receiveAll_cons_ok first] at failed ⊢
        obtain ⟨taken, refused, others, stream, rfl, read, broken, kept⟩ := ih failed
        refine ⟨piece :: taken, refused, others, stream, rfl, ?_⟩
        rw [receiveAll_cons_ok first]
        refine ⟨read, broken, ?_⟩
        simp only [kept, Heard.onto, List.nil_append]

/-- Refused pieces tell what the bytes before the refused one tell at once, and with it these
bytes are refused at once for the same cause. -/
theorem receiveAll_refused {key : String} {pieces : List Bytes} {cause : ProtocolError}
    (failed : ((connection.beginStream key).connection.receiveAll pieces).1 = .error cause) :
    ∃ taken refused rest stream, pieces = taken ++ refused :: rest ∧
      ((connection.beginStream key).connection.receive taken.flatten).1 = .ok () ∧
      ((connection.beginStream key).connection.receive (taken ++ [refused]).flatten).1 = .error cause ∧
      ((connection.beginStream key).connection.receiveAll pieces).2 =
        ((connection.beginStream key).connection.receive taken.flatten).2.onto stream [] := by
  obtain ⟨taken, refused, rest, stream, rfl, read, broken, kept⟩ := receiveAll_error failed
  have known := receiveAll_eq_receive read
  rw [known] at read broken kept
  refine ⟨taken, refused, rest, stream, rfl, read, ?_, kept⟩
  rw [List.flatten_append, List.flatten_singleton]
  exact receive_append_error (Prod.ext read rfl) broken

theorem receiveAll_accepted {key : String} {pieces : List Bytes} (inTime : ResponseHead.EndsInTime pieces.flatten)
    (read : ((connection.beginStream key).connection.receive pieces.flatten).1 = .ok ()) :
    ((connection.beginStream key).connection.receiveAll pieces).1 = .ok () := by
  cases outcome : ((connection.beginStream key).connection.receiveAll pieces).1 with
  | ok => rfl
  | error cause =>
    obtain ⟨taken, refused, rest, stream, parts, -, broken, -⟩ := receiveAll_refused outcome
    have arrived : pieces = (taken ++ [refused]) ++ rest := by rw [parts, List.append_assoc, List.singleton_append]
    have begun := stream_beginStream connection key
    obtain ⟨_, frames, next, there, heard, -, -⟩ := receive_ok (Prod.ext read rfl)
    obtain rfl := Option.some.inj (begun.symm.trans there)
    rw [arrived, List.flatten_append] at heard inTime
    obtain ⟨found, part⟩ := IncomingStream.hear_first inTime heard
    rw [receive_of_hear begun part] at broken
    cases broken

theorem receiveAll_overdue {stream : IncomingStream} {before : Bytes} (there : connection.stream = some stream)
    (stage : stream.stage = .head before) (waiting : ¬ResponseHead.Overdue before) {pieces arrived : List Bytes}
    (part : arrived <+: pieces) (late : ResponseHead.Overdue (before ++ arrived.flatten)) :
    ∃ last, connection.receiveAll pieces = (.error .headTooLong, Heard.onto { connection } last []) := by
  induction pieces generalizing connection stream before arrived with
  | nil =>
    rw [List.prefix_nil.1 part, List.flatten_nil, List.append_nil] at late
    exact absurd late waiting
  | cons piece rest ih =>
    rcases List.prefix_cons_iff.1 part with rfl | ⟨more, rfl, further⟩
    · rw [List.flatten_nil, List.append_nil] at late
      exact absurd late waiting
    rw [List.flatten_cons, ← List.append_assoc] at late
    have missing : Cut.around? ResponseHead.ending (before ++ piece) = none := by
      cases found : Cut.around? ResponseHead.ending (before ++ piece) with
      | none => rfl
      | some parted =>
        have still := Cut.around?_append (by decide) found more.flatten
        rw [late.1] at still
        cases still
    by_cases now : ResponseHead.Overdue (before ++ piece)
    · obtain ⟨next, refused⟩ := receive_of_hear_error there (IncomingStream.hear_overdue stage now)
      exact ⟨some next, receiveAll_cons_error refused rest⟩
    · obtain ⟨next, heard, kept⟩ := IncomingStream.hear_waiting stage missing now
      have still : Connection.stream { connection with stream := some next } = some next := rfl
      obtain ⟨last, refused⟩ := ih still kept now further late
      have taken := receive_of_hear there heard
      rw [List.foldl_nil] at taken
      rw [receiveAll_cons_ok taken, refused]
      exact ⟨last, rfl⟩

theorem events_of_part {first whole : Bytes} (part : first <+: whole) (read : (connection.receive first).1 = .ok ())
    (both : (connection.receive whole).1 = .ok ()) :
    (connection.receive first).2.events <+: (connection.receive whole).2.events := by
  obtain ⟨second, rfl⟩ := part
  obtain ⟨stream, early, middle, there, before, -, between⟩ := receive_ok (Prod.ext read rfl)
  obtain ⟨_, frames, last, still, all, -, -⟩ := receive_ok (Prod.ext both rfl)
  obtain rfl := Option.some.inj (there.symm.trans still)
  rw [IncomingStream.hear_append before] at all
  cases after : middle.hear second with
  | error cause => rw [after] at all; cases all
  | ok late =>
    rw [receive_append (Prod.ext read rfl) (receive_of_hear between after)]
    exact List.prefix_append _ _

theorem events_receiveAll (connection : Connection) (key : String) (pieces : List Bytes) :
    ∃ part, part <+: pieces.flatten ∧ ((connection.beginStream key).connection.receive part).1 = .ok () ∧
      ((connection.beginStream key).connection.receiveAll pieces).2.events =
        ((connection.beginStream key).connection.receive part).2.events := by
  cases outcome : ((connection.beginStream key).connection.receiveAll pieces).1 with
  | ok =>
    have whole := receiveAll_eq_receive outcome
    exact ⟨pieces.flatten, List.prefix_rfl, whole ▸ outcome, congrArg (·.2.events) whole⟩
  | error cause =>
    obtain ⟨taken, refused, rest, stream, rfl, read, -, kept⟩ := receiveAll_refused outcome
    refine ⟨taken.flatten, ?_, read, ?_⟩
    · rw [List.flatten_append]
      exact List.prefix_append _ _
    · rw [kept]
      rfl

theorem receiveAll_of_taken {key : String} {first second : List Bytes} (same : first.flatten = second.flatten)
    (inTime : ResponseHead.EndsInTime first.flatten)
    (read : ((connection.beginStream key).connection.receiveAll first).1 = .ok ()) :
    (connection.beginStream key).connection.receiveAll second =
      (connection.beginStream key).connection.receiveAll first := by
  have whole := receiveAll_eq_receive read
  rw [whole] at read ⊢
  rw [same] at read inTime ⊢
  exact receiveAll_eq_receive (receiveAll_accepted inTime read)

/-- However a stream whose head ends in time is cut, it is taken or refused. When it is taken,
the client knows and tells the same. When it is refused, the client knows and tells what the
bytes before the refused piece tell, and these are refused with it for the same cause; so what
is told with one cut begins what is told with the other. -/
theorem cuts_tell_alike (connection : Connection) (key : String) (first second : List Bytes)
    (same : first.flatten = second.flatten) (inTime : ResponseHead.EndsInTime first.flatten) :
    let begun := (connection.beginStream key).connection
    ((begun.receiveAll first).1 = .ok () → begun.receiveAll second = begun.receiveAll first) ∧
      (∀ cause, (begun.receiveAll first).1 = .error cause →
        (∃ other, (begun.receiveAll second).1 = .error other) ∧
        ∃ taken refused rest stream, first = taken ++ refused :: rest ∧
          (begun.receive taken.flatten).1 = .ok () ∧
          (begun.receive (taken ++ [refused]).flatten).1 = .error cause ∧
          (begun.receiveAll first).2 = (begun.receive taken.flatten).2.onto stream []) ∧
      ((begun.receiveAll first).2.events <+: (begun.receiveAll second).2.events ∨
        (begun.receiveAll second).2.events <+: (begun.receiveAll first).2.events) := by
  intro begun
  refine ⟨receiveAll_of_taken same inTime, fun cause failed => ⟨?_, receiveAll_refused failed⟩, ?_⟩
  · cases other : (begun.receiveAll second).1 with
    | error found => exact ⟨found, rfl⟩
    | ok =>
      have taken := receiveAll_of_taken same.symm (same ▸ inTime) other
      rw [taken, other] at failed
      cases failed
  · obtain ⟨part, start, read, told⟩ := events_receiveAll connection key first
    obtain ⟨part', start', read', told'⟩ := events_receiveAll connection key second
    rw [← same] at start'
    rw [told, told']
    exact (List.prefix_or_prefix_of_prefix start start').imp (events_of_part · read read') (events_of_part · read' read)

def greeting : Bytes :=
  ResponseHead.bytesOfLines (ResponseHead.watchLines (Key.hash "key")) ++ Chunk.frame (Frame.header 0 7).payload

def fault : Bytes := bytesOf "zz\r\n"

def greeted : IncomingStream := { IncomingStream.ofKey "key" with stage := .body {} }

def opened : Connection :=
  (({ room := "lobby", name := "Ann" } : Connection).beginStream "key").connection

theorem hear_greeting : (IncomingStream.ofKey "key").hear greeting = .ok ([.header 0 7], greeted) := by
  have fits : ChunkReader.Fits (Frame.header 0 7).payload := by decide +kernel
  have sized : (Frame.header 0 7).WordSized := Nat.zero_lt_succ _
  have decoded : IncomingStream.decodeAll [(Frame.header 0 7).payload] = .ok [.header 0 7] := by
    rw [IncomingStream.decodeAll, List.mapM_cons, Frame.decode_payload _ sized]
    rfl
  rw [greeting, IncomingStream.hear_body, IncomingStream.hearBody_ok (ChunkReader.scan_frame _ fits) decoded]
  rfl

theorem hear_fault : greeted.hear fault = .error (.badSize "zz") := by
  have refused : ChunkReader.scan {} fault = .error (.badSize "zz") := by decide +kernel
  rw [IncomingStream.hear_of_body rfl, IncomingStream.hearBody, refused]
  rfl

def welcomed : Heard :=
  { connection := { opened with id := some 7, self := some 0, phase := .inProgress, stream := some greeted }
    events := [.header 0, .phaseChanged] }

theorem receive_greeting : opened.receive greeting = (.ok (), welcomed) :=
  receive_of_hear (stream_beginStream _ _) hear_greeting

theorem receive_greeting_fault :
    ∃ next, opened.receive (greeting ++ fault) = (.error (.badSize "zz"), Heard.onto { connection := opened } next []) := by
  have heard : (IncomingStream.ofKey "key").hear (greeting ++ fault) = .error (.badSize "zz") := by
    rw [IncomingStream.hear_append hear_greeting, hear_fault]
    rfl
  obtain ⟨next, refused⟩ := receive_of_hear_error (stream_beginStream _ _) heard
  exact ⟨some next, refused⟩

def longLines : List (List Char) :=
  ResponseHead.linesOf "200 OK" (Key.hash "key")
    ['X' :: ':' :: List.replicate ResponseHead.maxLength 'a', "Transfer-Encoding: chunked".toList]

def longHead : Bytes :=
  ResponseHead.bytesOfLines longLines

theorem longLines_lines : ∀ line ∈ longLines, ResponseHead.IsLine line := by
  apply ResponseHead.linesOf_lines _ _ _ (by decide)
  simp only [List.forall_mem_cons]
  refine ⟨⟨List.cons_ne_nil _ _, ?_⟩, ⟨by decide, by decide +kernel⟩, by simp⟩
  simp only [List.forall_mem_cons]
  refine ⟨by decide, by decide, fun c member => ?_⟩
  rw [List.eq_of_mem_replicate member]
  decide

theorem takeUp_padding (head : ResponseHead) (padding : List Char) :
    head.takeUp ('X' :: ':' :: padding) = head := by
  have parted : Cut.first? ':' ('X' :: ':' :: padding) = some (['X'], padding) := rfl
  have others : ResponseHead.isWord ['X'] "sec-websocket-accept" = false ∧
      ResponseHead.isWord ['X'] "transfer-encoding" = false := by decide
  rw [ResponseHead.takeUp, parted]
  simp only [others, Bool.false_eq_true, if_false]

theorem parse_longHead : ResponseHead.parse (longHead ++ []) =
    .ok (some (⟨200, some (String.ofList (Key.acceptToken (Key.hash "key"))), true⟩, longHead.length)) := by
  have granted : ResponseHead.status? (longLines.headD []) = some 200 := ResponseHead.status?_ok
  have common := ResponseHead.takeUp_common { status := 200 }
  simp only [List.forall_mem_cons] at common
  have nonempty : longLines ≠ [] := List.cons_ne_nil _ _
  rw [longHead, ResponseHead.parse_bytesOfLines _ nonempty longLines_lines, granted]
  simp only [longLines, ResponseHead.linesOf, List.tail_cons, List.foldl_cons, List.foldl_nil, common,
    ResponseHead.takeUp_accept, takeUp_padding, ResponseHead.takeUp_chunked]

theorem hear_longHead : (IncomingStream.ofKey "key").hear longHead = .ok ([], greeted) := by
  have read := parse_longHead
  rw [List.append_nil] at read
  rw [IncomingStream.hear_head [] rfl, List.nil_append, read]
  change ((IncomingStream.ofKey "key").check _).bind _ = _
  rw [IncomingStream.check_granted, List.drop_length]
  change (IncomingStream.ofKey "key").hearBody {} [] = _
  exact IncomingStream.hearBody_nil _ _

theorem overdue_longHead : ResponseHead.Overdue longHead.dropLast := by
  have long : ResponseHead.maxLength + 1 < longHead.length := by
    have bytes := Utf8.length_le_encode (ResponseHead.joined longLines)
    have count : ResponseHead.maxLength < (ResponseHead.joined longLines).length := by
      have member : 'X' :: ':' :: List.replicate ResponseHead.maxLength 'a' ∈ longLines := by
        simp only [longLines, ResponseHead.linesOf, List.mem_cons, true_or, or_true]
      have inside := ResponseHead.length_le_joined longLines member
      rw [List.length_cons, List.length_cons, List.length_replicate] at inside
      omega
    have ended : ResponseHead.ending.length = 4 := rfl
    rw [longHead, ResponseHead.bytesOfLines, List.length_append, ended]
    omega
  refine ⟨ResponseHead.around?_part longLines longLines_lines _ (List.dropLast_prefix _) fun same => ?_, ?_⟩
  · have length := congrArg List.length same
    rw [List.length_dropLast] at length
    rw [longHead] at long length
    omega
  · rw [List.length_dropLast]
    omega

/-- A frame that comes in one piece with a fault is lost, and it is heard when it comes in a
piece of its own. A head that is too long to be waited for is taken when it comes at once. -/
theorem cut_tells_apart :
    ([greeting ++ fault].flatten = [greeting, fault].flatten ∧
      (opened.receiveAll [greeting ++ fault]).2.events = [] ∧
      (opened.receiveAll [greeting, fault]).2.events = [.header 0, .phaseChanged] ∧
      (opened.receiveAll [greeting ++ fault]).2.connection.id = none ∧
      (opened.receiveAll [greeting, fault]).2.connection.id = some 7) ∧
    ([longHead].flatten = [longHead.dropLast, [0x0A]].flatten ∧
      (opened.receiveAll [longHead]).1 = .ok () ∧
      (opened.receiveAll [longHead.dropLast, [0x0A]]).1 = .error .headTooLong) := by
  constructor
  · obtain ⟨_, whole⟩ := receive_greeting_fault
    have there : welcomed.connection.stream = some greeted := rfl
    obtain ⟨_, apart⟩ := receive_of_hear_error there hear_fault
    rw [receiveAll_cons_error whole, receiveAll_cons_ok receive_greeting, receiveAll_cons_error apart]
    exact ⟨by simp, rfl, rfl, rfl, rfl⟩
  · have begun := stream_beginStream { room := "lobby", name := "Ann" } "key"
    have whole := receive_of_hear begun hear_longHead
    have overdue : ResponseHead.Overdue ([] ++ [longHead.dropLast].flatten) := by
      rw [List.nil_append, List.flatten_singleton]
      exact overdue_longHead
    obtain ⟨_, apart⟩ := receiveAll_overdue begun rfl (fun early => by cases early.2)
      (List.prefix_append [longHead.dropLast] [[0x0A]]) overdue
    refine ⟨?_, ?_, congrArg Prod.fst apart⟩
    · simp only [longHead, ResponseHead.bytesOfLines, ResponseHead.ending, List.dropLast_append_cons,
        List.dropLast_cons_cons, List.dropLast_singleton, List.flatten_cons, List.flatten_nil, List.append_nil,
        List.append_assoc, List.cons_append, List.nil_append]
    · rw [opened, receiveAll_cons_ok whole]
      rfl

/-- A greeting that comes byte by byte tells what it tells at once. -/
theorem greeting_byte_by_byte :
    [greeting].flatten = (greeting.map fun byte => [byte]).flatten ∧ ResponseHead.EndsInTime [greeting].flatten ∧
      (opened.receiveAll (greeting.map fun byte => [byte])).2.events = [.header 0, .phaseChanged] := by
  have same : [greeting].flatten = (greeting.map fun byte => [byte]).flatten := by
    rw [List.flatten_singleton, ← List.flatMap_def, List.flatMap_singleton']
  have inTime : ResponseHead.EndsInTime [greeting].flatten := by
    rw [List.flatten_singleton]
    exact ResponseHead.endsInTime_of_short _ (ResponseHead.watchLines_lines _)
      (ResponseHead.watchLines_length_le "key") _
  have taken : opened.receiveAll [greeting] = (.ok (), welcomed) := receiveAll_cons_ok receive_greeting []
  have alike := (cuts_tell_alike { room := "lobby", name := "Ann" } "key" _ _ same inTime).1
  have whole : opened.receiveAll (greeting.map fun byte => [byte]) = opened.receiveAll [greeting] :=
    alike (congrArg Prod.fst taken)
  rw [whole, taken]
  exact ⟨same, inTime, rfl⟩

end Connection

end TileRoom
