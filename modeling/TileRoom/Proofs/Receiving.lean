import TileRoom.Proofs.Learning
import TileRoom.Proofs.StreamReading

/-! Bytes that reach a client. Whatever pieces they come in, the client hears the frames
of all bytes that arrived since the stream began, each of them once. -/

namespace TileRoom

theorem Reads.refl (connection : Connection) : Reads connection [] connection [] :=
  ⟨⟨rfl, rfl⟩, fun _ => rfl, rfl, rfl, rfl⟩

namespace Connection

/-- A connection that was `base` when it began a stream, and has read the frames `got` and
heard `news` since. -/
structure Listens (base : Connection) (key : String) (delivered : Bytes) (got : List Frame)
    (connection : Connection) (news : List Event) : Prop where
  stream : ∃ stream, connection.stream = some stream ∧
    (IncomingStream.ofKey key).hear delivered = .ok (got, stream)
  reads : Reads base got connection news

variable {base connection : Connection} {key : String} {delivered : Bytes} {got : List Frame}
  {news : List Event}

theorem stream_beginStream (connection : Connection) (key : String) :
    (connection.beginStream key).connection.stream = some (.ofKey key) :=
  congrArg Connection.stream (Heard.connection_setRunning _ _)

theorem listens_beginStream (connection : Connection) (key : String) :
    Listens (connection.beginStream key).connection key [] [] (connection.beginStream key).connection [] :=
  ⟨⟨_, stream_beginStream connection key, rfl⟩, .refl _⟩

theorem reads_beginStream (connection : Connection) (key : String) :
    Reads connection [] (connection.beginStream key).connection (connection.beginStream key).events := by
  obtain ⟨news, events, reads⟩ :=
    Heard.setRunning_spec { connection := { connection with stream := some (.ofKey key) } } true
  rw [beginStream, events]
  exact ⟨reads.room, reads.view, reads.messages, reads.count, reads.person⟩

theorem reads_fail (connection : Connection) (message : String) :
    Reads connection [] (connection.fail message).connection (connection.fail message).events := by
  obtain ⟨news, events, reads⟩ := Heard.setRunning_spec
    { connection := { connection with stream := none }, events := [.failure message] } false
  change (connection.fail message).events = [.failure message] ++ news at events
  rw [events]
  exact ⟨reads.room, reads.view, reads.messages, reads.count, reads.person⟩

theorem Listens.receive (listens : Listens base key delivered got connection news) {piece : Bytes}
    (read : (connection.receive piece).1 = .ok ()) :
    ∃ more, Listens base key (delivered ++ piece) (got ++ more) (connection.receive piece).2.connection
      (news ++ (connection.receive piece).2.events) := by
  obtain ⟨stream, there, heard⟩ := listens.stream
  unfold Connection.receive at read ⊢
  rw [there] at read ⊢
  dsimp only at read ⊢
  cases fed : stream.feed piece with
  | mk result next =>
    rw [fed] at read
    cases result with
    | error cause => cases read
    | ok more =>
      obtain ⟨fresh, events, reads⟩ :=
        Heard.foldl_handle_spec more { connection := { connection with stream := some next } }
      have whole := IncomingStream.hear_append heard piece
      rw [IncomingStream.hear_of_feed fed] at whole
      refine ⟨more, ⟨⟨next, (Heard.foldl_handle_keeps more _).1, whole⟩, ?_⟩⟩
      rw [events]
      exact listens.reads.append ⟨reads.room, reads.view, reads.messages, reads.count, reads.person⟩

theorem reads_receive_error {piece : Bytes} {cause : ProtocolError}
    (failed : (connection.receive piece).1 = .error cause) :
    Reads connection [] (connection.receive piece).2.connection (connection.receive piece).2.events := by
  unfold Connection.receive at failed ⊢
  split
  · exact .refl connection
  · rename_i stream there
    rw [there] at failed
    dsimp only at failed ⊢
    cases fed : stream.feed piece with
    | mk result next =>
      rw [fed] at failed
      cases result with
      | ok more => cases failed
      | error found => exact ⟨⟨rfl, rfl⟩, fun _ => rfl, rfl, rfl, rfl⟩

theorem Listens.hear_error (listens : Listens base key delivered got connection news) {piece : Bytes}
    {cause : ProtocolError} (failed : (connection.receive piece).1 = .error cause) :
    (IncomingStream.ofKey key).hear (delivered ++ piece) = .error cause := by
  obtain ⟨stream, there, heard⟩ := listens.stream
  unfold Connection.receive at failed
  rw [there] at failed
  dsimp only at failed
  rw [IncomingStream.hear_append heard, IncomingStream.hear]
  cases fed : stream.feed piece with
  | mk result next =>
    rw [fed] at failed
    cases result with
    | ok more => cases failed
    | error found => exact congrArg Except.error (Except.error.inj failed)

theorem Listens.receive_ok (listens : Listens base key delivered got connection news) {piece : Bytes}
    (readable : ∃ found, (IncomingStream.ofKey key).hear (delivered ++ piece) = .ok found) :
    (connection.receive piece).1 = .ok () := by
  cases read : (connection.receive piece).1 with
  | ok => rfl
  | error cause =>
    obtain ⟨found, heard⟩ := readable
    rw [listens.hear_error read] at heard
    cases heard

theorem Listens.receiveAll (listens : Listens base key delivered got connection news)
    {pieces : List Bytes} (read : (connection.receiveAll pieces).1 = .ok ()) :
    ∃ more, Listens base key (delivered ++ pieces.flatten) (got ++ more)
      (connection.receiveAll pieces).2.connection
      (news ++ (connection.receiveAll pieces).2.events) := by
  induction pieces generalizing connection delivered got news with
  | nil =>
    refine ⟨[], ?_⟩
    rw [List.flatten_nil, List.append_nil, List.append_nil]
    exact (List.append_nil news).symm ▸ listens
  | cons piece rest ih =>
    rw [Connection.receiveAll] at read ⊢
    cases first : connection.receive piece with
    | mk result heard =>
      rw [first] at read
      cases result with
      | error cause => cases read
      | ok =>
        obtain ⟨more, next⟩ := listens.receive (congrArg Prod.fst first)
        rw [first] at next
        obtain ⟨others, last⟩ := ih next read
        refine ⟨more ++ others, ?_⟩
        rw [List.flatten_cons, ← List.append_assoc, ← List.append_assoc, ← List.append_assoc]
        exact last

theorem Listens.receiveAll_ok (listens : Listens base key delivered got connection news)
    {pieces : List Bytes} (readable : ∀ data, data <+: delivered ++ pieces.flatten →
      ∃ found, (IncomingStream.ofKey key).hear data = .ok found) :
    (connection.receiveAll pieces).1 = .ok () := by
  induction pieces generalizing connection delivered got news with
  | nil => rfl
  | cons piece rest ih =>
    rw [List.flatten_cons, ← List.append_assoc] at readable
    have first := listens.receive_ok (readable (delivered ++ piece) (List.prefix_append _ _))
    obtain ⟨more, next⟩ := listens.receive first
    rw [Connection.receiveAll]
    cases received : connection.receive piece with
    | mk result heard =>
      rw [received] at first next
      subst first
      exact ih next readable

end Connection

end TileRoom
