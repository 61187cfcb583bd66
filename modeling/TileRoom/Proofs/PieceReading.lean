import TileRoom.Proofs.Receiving

/-! Pieces of a stream. A piece that is read after another does what both do at once, and a
piece that is refused does nothing. A head is waited for as long as it is not overdue, which
shows at the end of a piece only. -/

namespace TileRoom

namespace Heard

def onto (heard : Heard) (stream : Option IncomingStream) (earlier : List Event) : Heard :=
  { connection := { heard.connection with stream }, events := earlier ++ heard.events }

variable (heard : Heard) (stream : Option IncomingStream) (earlier : List Event)

theorem announce_onto (event : Event) :
    (heard.onto stream earlier).announce event = (heard.announce event).onto stream earlier := by
  simp only [announce, onto, List.append_assoc]

theorem setPhase_onto (phase : ConnectionPhase) :
    (heard.onto stream earlier).setPhase phase = (heard.setPhase phase).onto stream earlier := by
  have same : (heard.onto stream earlier).connection.phase = heard.connection.phase := rfl
  unfold setPhase
  rw [same]
  split
  · rfl
  · exact announce_onto (heard.quietly ({ · with phase })) stream earlier .phaseChanged

theorem setRunning_onto (running : Bool) :
    (heard.onto stream earlier).setRunning running = (heard.setRunning running).onto stream earlier := by
  have same : (heard.onto stream earlier).connection.running = heard.connection.running := rfl
  unfold setRunning
  rw [same]
  split
  · rfl
  · exact announce_onto (heard.quietly ({ · with running })) stream earlier (.running running)

theorem handle_onto (frame : Frame) :
    (heard.onto stream earlier).handle frame = (heard.handle frame).onto stream earlier := by
  cases frame with
  | header num id =>
    have known : (((heard.onto stream earlier).quietly ({ · with id := some id, self := some num })).announce
          (.header num)).setPhase .inProgress =
        (((heard.quietly ({ · with id := some id, self := some num })).announce (.header num)).setPhase
          .inProgress).onto stream earlier := by
      rw [← setPhase_onto, ← announce_onto]
      rfl
    have waiting (middle : Heard) : (middle.onto stream earlier).connection.pending = middle.connection.pending := rfl
    simp only [handle, handleHeader, known, waiting]
    split
    · rfl
    · exact announce_onto _ stream earlier .commandsWaiting
  | tile num x y letter lastPlayer =>
    change handleTile _ num x y letter lastPlayer = (handleTile _ num x y letter lastPlayer).onto stream earlier
    unfold handleTile
    split
    · exact announce_onto (heard.quietly fun connection =>
        { connection with knownTiles := connection.knownTiles.insert num }) stream earlier _
    · rfl
  | message person text =>
    exact announce_onto (heard.quietly fun connection =>
      { connection with nextMessage := connection.nextMessage + 1 }) stream earlier _
  | finish =>
    rw [handle, handle, setPhase_onto, setRunning_onto]
  | playerName | player | shout => exact announce_onto heard stream earlier _
  | padding | unknown => rfl

theorem foldl_handle_onto (frames : List Frame) :
    frames.foldl handle (heard.onto stream earlier) = (frames.foldl handle heard).onto stream earlier := by
  induction frames generalizing heard with
  | nil => rfl
  | cons frame rest ih => rw [List.foldl_cons, List.foldl_cons, handle_onto, ih]

end Heard

namespace ResponseHead

/-- So much has arrived without the end of a head that it is no longer waited for. -/
def Overdue (data : Bytes) : Prop :=
  Cut.around? ending data = none ∧ maxLength < data.length

/-- Whether the empty line after a head, if there is one, comes before the head is overdue. -/
def EndsInTime (data : Bytes) : Prop :=
  ∀ before after, Cut.around? ending data = some (before, after) → before.length + ending.length ≤ maxLength + 1

theorem parse_overdue {data : Bytes} (late : Overdue data) : parse data = .error .headTooLong := by
  rw [parse, late.1]
  exact if_pos late.2

theorem parse_waiting {data : Bytes} (missing : Cut.around? ending data = none) (inTime : ¬Overdue data) :
    parse data = .ok none := by
  rw [parse, missing]
  exact if_neg fun long => inTime ⟨missing, long⟩

theorem not_overdue {first second : Bytes} (inTime : EndsInTime (first ++ second))
    {found : Option (ResponseHead × Nat)} (parsed : parse (first ++ second) = .ok found) : ¬Overdue first := by
  rintro ⟨missing, long⟩
  cases whole : Cut.around? ending (first ++ second) with
  | none =>
    have late : Overdue (first ++ second) := ⟨whole, by rw [List.length_append]; omega⟩
    rw [parse_overdue late] at parsed
    cases parsed
  | some parted =>
    obtain ⟨before, after⟩ := parted
    have limit := inTime before after whole
    have start : before ++ ending <+: first ++ second := by
      rw [Cut.around?_eq_some whole]
      exact List.prefix_append _ _
    have inside : before ++ ending <+: first :=
      List.prefix_of_prefix_length_le start (List.prefix_append _ _) (by rw [List.length_append]; omega)
    exact Cut.not_infix_of_around?_none missing ((List.suffix_append before ending).isInfix.trans inside.isInfix)

theorem parse_first {first second : Bytes} (inTime : ¬Overdue first) {found : Option (ResponseHead × Nat)}
    (parsed : parse (first ++ second) = .ok found) :
    parse first = .ok none ∨
      ∃ head used, found = some (head, used) ∧ parse first = .ok (some (head, used)) ∧
        (first ++ second).drop used = first.drop used ++ second := by
  cases here : Cut.around? ending first with
  | none => exact .inl (parse_waiting here inTime)
  | some parted =>
    right
    have whole := Cut.around?_append (by decide) here second
    have same : parse first = .ok found := by
      rw [parse, whole] at parsed
      rw [parse, here]
      exact parsed
    cases found with
    | none =>
      rw [parse, here] at same
      simp only at same
      split at same
      · cases same
      · rename_i text decoded
        cases read : ofText text with
        | error cause => rw [read] at same; cases same
        | ok head => rw [read] at same; cases same
    | some found => exact ⟨found.1, found.2, rfl, same, (parse_append same second).2⟩

theorem endsInTime_of_short (parts : List (List Char)) (each : ∀ line ∈ parts, IsLine line)
    (short : (bytesOfLines parts).length ≤ maxLength) (rest : Bytes) : EndsInTime (bytesOfLines parts ++ rest) := by
  intro before after found
  rw [bytesOfLines, endsFirst_joined parts each rest] at found
  obtain ⟨rfl, -⟩ := Prod.mk.inj (Option.some.inj found)
  rw [bytesOfLines, List.length_append] at short
  omega

end ResponseHead

namespace IncomingStream

theorem hear_overdue {stream : IncomingStream} {before data : Bytes} (stage : stream.stage = .head before)
    (late : ResponseHead.Overdue (before ++ data)) : stream.hear data = .error .headTooLong := by
  rw [hear_head before stage, ResponseHead.parse_overdue late]

theorem hear_waiting {stream : IncomingStream} {before data : Bytes} (stage : stream.stage = .head before)
    (missing : Cut.around? ResponseHead.ending (before ++ data) = none) (inTime : ¬ResponseHead.Overdue (before ++ data)) :
    ∃ next, stream.hear data = .ok ([], next) ∧ next.stage = .head (before ++ data) := by
  rw [hear_head before stage, ResponseHead.parse_waiting missing inTime]
  exact ⟨_, rfl, rfl⟩

theorem hearBody_first {stream last : IncomingStream} {reader : ChunkReader} {first second : Bytes}
    {frames : List Frame} (heard : stream.hearBody reader (first ++ second) = .ok (frames, last)) :
    ∃ found, stream.hearBody reader first = .ok found := by
  unfold hearBody at heard
  cases scanned : reader.scan (first ++ second) with
  | error cause => rw [scanned] at heard; cases heard
  | ok all =>
    obtain ⟨early, late, middle, one, -, whole⟩ := ChunkReader.scan_first scanned
    rw [scanned, Except.bind, whole, decodeAll_append] at heard
    cases decoded : decodeAll early with
    | error cause => rw [decoded] at heard; cases heard
    | ok frames => exact ⟨_, hearBody_ok one decoded⟩

theorem hear_first {key : String} {first second : Bytes} (inTime : ResponseHead.EndsInTime (first ++ second))
    {found : List Frame × IncomingStream} (heard : (ofKey key).hear (first ++ second) = .ok found) :
    ∃ found, (ofKey key).hear first = .ok found := by
  rw [hear_head [] rfl, List.nil_append] at heard ⊢
  cases parsed : ResponseHead.parse (first ++ second) with
  | error cause => rw [parsed] at heard; cases heard
  | ok result =>
    rw [parsed] at heard
    have waited := ResponseHead.not_overdue inTime parsed
    rcases ResponseHead.parse_first waited parsed with waiting | ⟨head, used, rfl, read, rest⟩
    · rw [waiting]
      exact ⟨_, rfl⟩
    · rw [read]
      simp only at heard ⊢
      cases checked : (ofKey key).check head with
      | error cause => rw [checked] at heard; cases heard
      | ok granted =>
        rw [checked, rest] at heard
        exact hearBody_first heard

end IncomingStream

namespace Connection

variable {connection : Connection} {one two : Heard}

theorem receive_ok {data : Bytes} (read : connection.receive data = (.ok (), one)) :
    ∃ stream frames next, connection.stream = some stream ∧ stream.hear data = .ok (frames, next) ∧
      one = frames.foldl Heard.handle { connection := { connection with stream := some next } } ∧
      one.connection.stream = some next := by
  unfold receive at read
  split at read
  · cases read
  · rename_i stream there
    cases fed : stream.feed data with
    | mk result next =>
      rw [fed] at read
      cases result with
      | error cause => cases read
      | ok frames =>
        obtain rfl := (Prod.mk.inj read).2
        exact ⟨stream, frames, next, there, IncomingStream.hear_of_feed fed, rfl, (Heard.foldl_handle_keeps frames _).1⟩

theorem receive_of_hear {stream next : IncomingStream} {data : Bytes} {frames : List Frame}
    (there : connection.stream = some stream) (heard : stream.hear data = .ok (frames, next)) :
    connection.receive data =
      (.ok (), frames.foldl Heard.handle { connection := { connection with stream := some next } }) := by
  unfold IncomingStream.hear at heard
  unfold receive
  rw [there]
  dsimp only
  split at heard
  · rename_i fed
    obtain ⟨rfl, rfl⟩ := Prod.mk.inj (Except.ok.inj heard)
    rw [fed]
  · cases heard

theorem receive_of_hear_error {stream : IncomingStream} {data : Bytes} {cause : ProtocolError}
    (there : connection.stream = some stream) (heard : stream.hear data = .error cause) :
    ∃ next, connection.receive data = (.error cause, Heard.onto { connection } (some next) []) := by
  unfold IncomingStream.hear at heard
  unfold receive
  rw [there]
  dsimp only
  split at heard
  · cases heard
  · rename_i next fed
    obtain rfl := Except.error.inj heard
    rw [fed]
    exact ⟨next, rfl⟩

theorem receive_error {data : Bytes} {cause : ProtocolError} (failed : connection.receive data = (.error cause, one)) :
    ∃ stream, one = Heard.onto { connection } stream [] := by
  unfold receive at failed
  split at failed
  · obtain rfl := (Prod.mk.inj failed).2
    exact ⟨connection.stream, rfl⟩
  · rename_i stream there
    cases fed : stream.feed data with
    | mk result next =>
      rw [fed] at failed
      cases result with
      | ok frames => cases failed
      | error found =>
        obtain rfl := (Prod.mk.inj failed).2
        exact ⟨some next, rfl⟩

theorem receive_append {first second : Bytes} (read : connection.receive first = (.ok (), one))
    (next : one.connection.receive second = (.ok (), two)) :
    connection.receive (first ++ second) = (.ok (), two.onto two.connection.stream one.events) := by
  obtain ⟨stream, early, middle, there, before, first_eq, between⟩ := receive_ok read
  obtain ⟨_, late, last, still, after, second_eq, kept⟩ := receive_ok next
  obtain rfl := Option.some.inj (between.symm.trans still)
  have both := IncomingStream.hear_append before second
  rw [after] at both
  -- The frames of the first piece are handled with the stream of the second, those of the second after the news of
  -- the first.
  have first_onto : early.foldl Heard.handle { connection := { connection with stream := some last } } =
      one.onto (some last) [] := by
    rw [first_eq, ← Heard.foldl_handle_onto]
    rfl
  have later_onto : one.onto (some last) [] =
      Heard.onto { connection := { one.connection with stream := some last } } (some last) one.events := by
    simp only [Heard.onto, List.append_nil, List.nil_append]
  rw [receive_of_hear there both, List.foldl_append, first_onto, later_onto, Heard.foldl_handle_onto, ← second_eq, kept]

theorem receive_append_error {first second : Bytes} {cause : ProtocolError} (read : connection.receive first = (.ok (), one))
    (failed : (one.connection.receive second).1 = .error cause) :
    (connection.receive (first ++ second)).1 = .error cause := by
  obtain ⟨stream, early, middle, there, before, -, between⟩ := receive_ok read
  have both := IncomingStream.hear_append before second
  cases after : middle.hear second with
  | ok found =>
    rw [receive_of_hear between after] at failed
    cases failed
  | error found =>
    obtain ⟨_, next⟩ := receive_of_hear_error between after
    obtain ⟨_, whole⟩ := receive_of_hear_error there (both.trans (congrArg _ after))
    rw [next] at failed
    rw [whole]
    exact failed

end Connection

end TileRoom
