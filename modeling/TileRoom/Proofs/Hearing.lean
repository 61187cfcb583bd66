import TileRoom.Proofs.Airing

/-! What a client makes of a stream on the air. Whatever part of it has arrived, the
client heard the header and the first of the frames told, or nothing at all; with all of a
drained stream it heard everything there is in the room. -/

namespace TileRoom

theorem Reads.of_padding {before after : Connection} {news : List Event} (count : Nat)
    {frames : List Frame} (reads : Reads before (List.replicate count .padding ++ frames) after news) :
    Reads before frames after news := by
  induction count with
  | zero => exact reads
  | succ count ih =>
    exact ih ⟨reads.room, reads.view, reads.messages, reads.count, reads.person⟩

theorem prefix_replicate {α : Type} {word : α} {count : Nat} {frames got : List α}
    (part : got <+: List.replicate count word ++ frames) :
    (∃ some, got = List.replicate some word) ∨
      ∃ heard, heard <+: frames ∧ got = List.replicate count word ++ heard := by
  rcases List.prefix_or_prefix_of_prefix part (List.prefix_append _ _) with inside | beyond
  · exact Or.inl ⟨got.length, List.eq_replicate_iff.2 ⟨rfl, fun frame member =>
      List.eq_of_mem_replicate (inside.subset member)⟩⟩
  · obtain ⟨heard, rfl⟩ := beyond
    exact Or.inr ⟨heard, (List.prefix_append_right_inj _).1 part, rfl⟩

theorem IncomingStream.script_frames (frames : List Frame) :
    (script frames).map (·.2) =
      List.replicate Frame.paddingTexts.length .padding ++ frames.map Frame.received := by
  rw [script, List.map_append, List.map_map, List.map_map]
  rfl

theorem Frame.fits_of_textless {frame : Frame} (sized : frame.WordSized) (textless : frame.IsTextless) :
    ChunkReader.Fits frame.payload := by
  have limit : 16 ^ 3 ≤ 16 ^ ChunkReader.maxDigits := by decide
  exact ⟨List.length_pos_iff.1 frame.payload_nonempty,
    Nat.lt_of_lt_of_le (frame.payload_length_lt sized textless) limit⟩

/-- Whether every name and every message of a room fits a chunk of a stream. -/
structure Conversation.Sendable (room : Conversation) : Prop where
  names : ∀ player ∈ room.players, ChunkReader.Fits player.nameFrame.payload
  messages : ∀ message ∈ room.messages, ChunkReader.Fits message.frame.payload

instance (room : Conversation) : Decidable room.Sendable :=
  decidable_of_iff ((∀ player ∈ room.players, ChunkReader.Fits player.nameFrame.payload) ∧
      ∀ message ∈ room.messages, ChunkReader.Fits message.frame.payload)
    ⟨fun both => ⟨both.1, both.2⟩, fun sendable => ⟨sendable.names, sendable.messages⟩⟩

theorem Conversation.Sendable.of_altered {room after : Conversation} {changes : List Change}
    (sendable : after.Sendable) (altered : room.Altered changes after) (consistent : room.Consistent)
    (right : after.Consistent) : room.Sendable where
  names player member := by
    obtain ⟨num, there⟩ := List.mem_iff_getElem?.1 member
    obtain ⟨later, found, name, _⟩ := altered.kept num player there
    have fits := sendable.names later (List.mem_of_getElem? found)
    rw [Player.nameFrame, right.numbered num later found, name] at fits
    rw [Player.nameFrame, consistent.numbered num player there]
    exact fits
  messages message member := sendable.messages message (altered.messages.subset member)

/-- What a client remembers who was told of a room as one of its players: the messages it
counted, each once and in order, and nothing that is not in the room. -/
structure Recalls (room : Conversation) (player : Nat) (connection : Connection) (news : List Event) :
    Prop where
  count : connection.nextMessage ≤ room.messages.length
  messages : news.filterMap Event.message? =
    (room.messages.take connection.nextMessage).map Message.spaced
  view : (news.foldl View.see {}).Known room player

theorem Recalls.mono {room after : Conversation} {player : Nat} {connection : Connection}
    {news : List Event} (recalls : Recalls room player connection news)
    (players : room.players.length ≤ after.players.length)
    (tiles : room.tiles.length ≤ after.tiles.length) (messages : room.messages <+: after.messages) :
    Recalls after player connection news where
  count := Nat.le_trans recalls.count messages.length_le
  messages := by
    obtain ⟨added, grown⟩ := messages
    rw [recalls.messages, ← grown, List.take_append_of_le_length recalls.count]
  view := recalls.view.mono players tiles

theorem messages_received (frames : List Frame) :
    (frames.map Frame.received).filterMap Frame.message? =
      (frames.filterMap Frame.message?).map Message.spaced := by
  rw [List.filterMap_map, List.map_filterMap]
  refine congrArg (List.filterMap · frames) (funext fun frame => ?_)
  cases frame <;> rfl

theorem person_received {room : Conversation} {frames : List Frame}
    (names : ∀ frame ∈ frames, frame.Names room) (id : Option PersonId) :
    (frames.map Frame.received).foldl (fun id frame => (frame.header?.map (·.2)).or id) id = id := by
  induction frames with
  | nil => rfl
  | cons frame rest ih =>
    obtain ⟨here, later⟩ := List.forall_mem_cons.1 names
    rw [List.map_cons, List.foldl_cons]
    cases frame with
    | header => exact here.elim
    | playerName | player | message | shout | tile | finish | padding | unknown => exact ih later

theorem shown_known {airing : Airing} {room : Conversation} {frames : List Frame}
    (known : airing.before.Known room airing.player) (consistent : room.Consistent)
    (names : ∀ frame ∈ frames, frame.Names room) :
    (airing.shown frames).Known room airing.player := by
  obtain ⟨learnt, self⟩ := known.learn_header airing.id
  unfold Airing.shown Airing.header
  generalize airing.before.learn (.header airing.player airing.id) = view at learnt self
  induction frames generalizing view with
  | nil => exact learnt
  | cons frame rest ih =>
    obtain ⟨here, later⟩ := List.forall_mem_cons.1 names
    obtain ⟨next, same⟩ := learnt.learn self consistent (Frame.names_received.2 here)
    exact ih later _ next same

namespace Airs

variable {airing : Airing} {room : Conversation} {stream : WatchStream} {covered : Nat → Prop}
  {frames : List Frame} {written : Bytes}

theorem sized (airs : Airs airing room stream covered frames written) (consistent : room.Consistent) :
    ∀ frame ∈ airing.header :: frames, frame.WordSized := by
  have few := consistent.few
  have inside := airs.inside
  refine List.forall_mem_cons.2 ⟨?_, fun frame member => (airs.names frame member).wordSized consistent⟩
  simp only [maxPlayers] at few
  simp only [Airing.header, Frame.WordSized, UInt64.size]
  omega

theorem scan_closing (stream : WatchStream) :
    ∃ last, ({} : ChunkReader).scan stream.closing = .ok ([], last) := by
  unfold WatchStream.closing
  split
  all_goals first
    | exact ⟨_, ChunkReader.scan_lastChunk⟩
    | exact ⟨_, ChunkReader.scan_nil {}⟩

theorem part (airs : Airs airing room stream covered frames written) {data : Bytes}
    (arrived : data <+: written) :
    data <+: airing.opening ++ (airing.header :: frames).flatMap Frame.chunk ++ stream.closing :=
  arrived.trans (airs.spelled.text ▸ List.prefix_append _ _)

theorem heard (airs : Airs airing room stream covered frames written) (consistent : room.Consistent)
    {base connection : Connection} {delivered : Bytes} {got : List Frame} {news : List Event}
    (listens : base.Listens airing.key delivered got connection news) (arrived : delivered <+: written) :
    Reads base [] connection news ∨ ∃ heard, heard <+: frames ∧
      Reads base (airing.header :: heard.map Frame.received) connection news := by
  obtain ⟨next, _, read⟩ := listens.stream
  obtain ⟨last, ending⟩ := scan_closing stream
  have some := IncomingStream.hear_part (airs.sized consistent) ending (airs.part arrived) read
  have reads := listens.reads
  rw [IncomingStream.script_frames] at some
  rcases prefix_replicate some with ⟨count, rfl⟩ | ⟨rest, after, rfl⟩
  · exact Or.inl (Reads.of_padding count (by rwa [List.append_nil]))
  · have told := Reads.of_padding _ reads
    cases rest with
    | nil => exact Or.inl told
    | cons first rest =>
      obtain ⟨rfl, rest'⟩ := List.cons_prefix_cons.1 after
      have same := IncomingStream.map_prefix _ rest'
      rw [same] at told
      exact Or.inr ⟨_, List.take_prefix _ _, told⟩

/-- A client that heard all of a drained stream heard each frame, and each fits a chunk. -/
theorem heard_all (airs : Airs airing room stream covered frames written) (consistent : room.Consistent)
    (drained : stream.Drained room) {base connection : Connection} {got : List Frame} {news : List Event}
    (listens : base.Listens airing.key written got connection news) :
    Reads base (airing.header :: frames.map Frame.received) connection news ∧
      ∀ frame ∈ frames, ChunkReader.Fits frame.payload := by
  obtain ⟨next, _, read⟩ := listens.stream
  have reads := listens.reads
  rw [drained.written airs.spelled] at read
  obtain ⟨rfl, fits⟩ := IncomingStream.hear_whole (airs.sized consistent) read
  rw [IncomingStream.script_frames] at reads
  exact ⟨Reads.of_padding _ reads, (List.forall_mem_cons.1 fits).2⟩

theorem recalls (airs : Airs airing room stream covered frames written) (consistent : room.Consistent)
    {base connection : Connection} {earlier news : List Event} {heard : List Frame}
    (first : airing.first = base.nextMessage) (before : airing.before = earlier.foldl View.see {})
    (known : earlier.filterMap Event.message? = (room.messages.take airing.first).map Message.spaced)
    (told : heard <+: frames)
    (reads : Reads base (airing.header :: heard.map Frame.received) connection news) :
    connection.id = some airing.id ∧ Recalls room airing.player connection (earlier ++ news) ∧
      (earlier ++ news).foldl View.see {} = airing.shown heard := by
  have names (frame : Frame) (member : frame ∈ heard) := airs.names frame (told.subset member)
  have messages := messages_received heard
  have shown : (earlier ++ news).foldl View.see {} = airing.shown heard := by
    rw [List.foldl_append, reads.view, ← before]
    rfl
  have chat : room.messages.take airing.first ++ heard.filterMap Frame.message? <+: room.messages := by
    obtain ⟨rest, rfl⟩ := told
    have whole := airs.recounts.messages
    rw [List.filterMap_append, ← List.append_assoc] at whole
    have part := List.prefix_append (room.messages.take airing.first ++ heard.filterMap Frame.message?)
      (rest.filterMap Frame.message?)
    rw [whole] at part
    exact part.trans (List.take_prefix _ _)
  have count : connection.nextMessage =
      (room.messages.take airing.first ++ heard.filterMap Frame.message?).length := by
    rw [reads.count, List.filterMap_cons_none rfl, messages, List.length_map, List.length_append,
      List.length_take, Nat.min_eq_left airs.first, first]
  refine ⟨?_, ⟨?_, ?_, ?_⟩, shown⟩
  · rw [reads.person, List.foldl_cons]
    exact person_received names _
  · rw [count]
    exact chat.length_le
  · rw [List.filterMap_append, known, reads.messages, List.filterMap_cons_none rfl, messages,
      ← List.map_append, count, ← List.prefix_iff_eq_take.1 chat]
  · rw [shown]
    exact shown_known airs.known consistent names

theorem fits (airs : Airs airing room stream covered frames written) (consistent : room.Consistent)
    (sendable : room.Sendable) : ∀ frame ∈ frames, ChunkReader.Fits frame.payload := by
  intro frame member
  have names := airs.names frame member
  have sized := names.wordSized consistent
  cases frame with
  | playerName num name =>
    have told : (num, name) ∈ frames.filterMap Frame.name? := List.mem_filterMap.2 ⟨_, member, rfl⟩
    rw [airs.recounts.names] at told
    obtain ⟨player, known, same⟩ := List.mem_map.1 told
    obtain ⟨rfl, rfl⟩ := Prod.mk.inj same
    exact sendable.names player (List.mem_of_mem_take known)
  | message person text =>
    have told : ⟨person, text⟩ ∈ room.messages.take stream.agenda.nextMessage := by
      rw [← airs.recounts.messages]
      exact List.mem_append_right _ (List.mem_filterMap.2 ⟨_, member, rfl⟩)
    exact sendable.messages ⟨person, text⟩ (List.mem_of_mem_take told)
  | player | shout | tile | finish => exact Frame.fits_of_textless sized trivial
  | header | padding | unknown => exact names.elim

theorem sendable (airs : Airs airing room stream covered frames written)
    (drained : stream.Drained room) (fits : ∀ frame ∈ frames, ChunkReader.Fits frame.payload)
    (known : ∀ message ∈ room.messages.take airing.first, ChunkReader.Fits message.frame.payload) :
    room.Sendable where
  names player member := by
    have told := airs.recounts.names
    rw [List.take_of_length_le (i := stream.agenda.namedPlayers) drained.named] at told
    have named : (player.num, player.name) ∈ frames.filterMap Frame.name? := by
      rw [told]
      exact List.mem_map_of_mem member
    obtain ⟨frame, listed, name⟩ := List.mem_filterMap.1 named
    cases frame with
    | playerName num name =>
      obtain ⟨rfl, rfl⟩ := Prod.mk.inj (Option.some.inj name)
      exact fits _ listed
    | _ => cases name
  messages message member := by
    have told := airs.recounts.messages
    rw [List.take_of_length_le (i := stream.agenda.nextMessage) drained.told] at told
    rw [← told] at member
    rcases List.mem_append.1 member with before | since
    · exact known message before
    · obtain ⟨frame, listed, found⟩ := List.mem_filterMap.1 since
      cases frame with
      | message person text =>
        obtain rfl := Option.some.inj found
        exact fits _ listed
      | _ => cases found

theorem accepted (airs : Airs airing room stream covered frames written) (consistent : room.Consistent)
    (fits : ∀ frame ∈ frames, ChunkReader.Fits frame.payload) {data : Bytes} (arrived : data <+: written) :
    ∃ found, (IncomingStream.ofKey airing.key).hear data = .ok found := by
  have sized := airs.sized consistent
  have header : ChunkReader.Fits airing.header.payload :=
    Frame.fits_of_textless (List.forall_mem_cons.1 sized).1 trivial
  obtain ⟨last, ending⟩ := scan_closing stream
  obtain ⟨got, next, read⟩ := IncomingStream.hear_accepted sized (List.forall_mem_cons.2 ⟨header, fits⟩)
    ending (airs.part arrived)
  exact ⟨(got, next), read⟩

end Airs

end TileRoom
