import TileRoom.Proofs.IndexSets
import TileRoom.Proofs.Writing

/-! What a watch stream tells. Its agenda is what it has not told yet; each frame it
chooses takes something off the agenda, and what it writes spells out the frames chosen,
whatever the buffers it writes into. -/

namespace TileRoom

/-- What a stream has not told yet, and the player it is for. -/
structure Agenda where
  player : Nat
  namedPlayers : Nat
  nextMessage : Nat
  players : IndexSet 64
  shouts : IndexSet 64
  tiles : IndexSet 128

/-- A frame is told of a room and taken off the agenda. -/
inductive Tells (room : Conversation) : Agenda → Frame → Agenda → Prop where
  | name {agenda : Agenda} {player : Player} (unnamed : room.players[agenda.namedPlayers]? = some player) :
      Tells room agenda player.nameFrame { agenda with namedPlayers := agenda.namedPlayers + 1 }
  | status {agenda : Agenda} {num : Nat} {player : Player} (found : room.players[num]? = some player)
      (due : agenda.players.contains num = true) :
      Tells room agenda player.statusFrame { agenda with players := agenda.players.erase num }
  | message {agenda : Agenda} {message : Message} (found : room.messages[agenda.nextMessage]? = some message) :
      Tells room agenda message.frame { agenda with nextMessage := agenda.nextMessage + 1 }
  | shout {agenda : Agenda} {player : Nat} (due : agenda.shouts.contains player = true) :
      Tells room agenda (.shout player (room.shouter? = some player))
        { agenda with shouts := agenda.shouts.erase player }
  | tile {agenda : Agenda} {num : Nat} {tile : Tile} (found : room.tiles[num]? = some tile)
      (due : agenda.tiles.contains num = true) :
      Tells room agenda tile.frame { agenda with tiles := agenda.tiles.erase num }
  | farewell {agenda : Agenda} (gone : room.isConnected agenda.player = false) :
      Tells room agenda .finish agenda

inductive Recites (room : Conversation) : Agenda → List Frame → Agenda → Prop where
  | nil {agenda : Agenda} : Recites room agenda [] agenda
  | cons {first second last : Agenda} {frame : Frame} {frames : List Frame}
      (tells : Tells room first frame second) (recites : Recites room second frames last) :
      Recites room first (frame :: frames) last

theorem Tells.player {room : Conversation} {agenda later : Agenda} {frame : Frame}
    (tells : Tells room agenda frame later) : later.player = agenda.player := by
  cases tells <;> rfl

theorem Recites.concat {room : Conversation} {agenda middle later : Agenda} {frames : List Frame}
    {frame : Frame} (recites : Recites room agenda frames middle) (tells : Tells room middle frame later) :
    Recites room agenda (frames ++ [frame]) later := by
  induction recites with
  | nil => exact .cons tells .nil
  | cons first _ ih => exact .cons first (ih tells)

/-- Whether it is a frame's turn: all players are named before anything else is told, and
the last frame waits for every status that is due. -/
structure InTurn (room : Conversation) (agenda : Agenda) (frame : Frame) : Prop where
  named : (∃ num name, frame = .playerName num name) ∨ room.players.length ≤ agenda.namedPlayers
  last : frame = .finish → ∀ num < room.players.length, ¬agenda.players.contains num = true

theorem Recites.player {room : Conversation} {agenda later : Agenda} {frames : List Frame}
    (recites : Recites room agenda frames later) : later.player = agenda.player := by
  induction recites with
  | nil => rfl
  | cons tells _ ih => exact ih.trans tells.player

def Frame.chunk (frame : Frame) : Bytes :=
  Chunk.frame frame.payload

namespace WatchStream

def agenda (stream : WatchStream) : Agenda :=
  ⟨stream.player, stream.namedPlayers, stream.nextMessage, stream.players, stream.shouts, stream.tiles⟩

/-- The bytes of the frames chosen that are not written yet. -/
def owed (stream : WatchStream) : Bytes :=
  match stream.phase with
  | .head => stream.head.drop stream.pos ++ stream.current.chunk
  | .frame => stream.current.chunk.drop stream.pos
  | .farewell => Chunk.farewell.drop stream.pos
  | .waiting | .done => []

def closing (stream : WatchStream) : Bytes :=
  match stream.phase with
  | .farewell | .done => Chunk.lastChunk
  | .head | .frame | .waiting => []

def Due (stream : WatchStream) (room : Conversation) : NextFrame → Prop
  | .name num => num = stream.namedPlayers
  | .status num => stream.players.contains num = true
  | .message index => index = stream.nextMessage
  | .shout player => stream.shouts.contains player = true
  | .tile num => stream.tiles.contains num = true
  | .farewell => room.isConnected stream.player = false

theorem due_nextFrame {stream : WatchStream} {room : Conversation} {wanted : NextFrame}
    (chosen : stream.nextFrame? room = some wanted) : stream.Due room wanted := by
  unfold nextFrame? at chosen
  split at chosen
  · obtain rfl := Option.some.inj chosen
    rfl
  split at chosen
  · rename_i num found
    obtain rfl := Option.some.inj chosen
    exact (IndexSet.filter_first?_eq_some found).1
  split at chosen
  · obtain rfl := Option.some.inj chosen
    rfl
  split at chosen
  · rename_i player found
    obtain rfl := Option.some.inj chosen
    exact (IndexSet.first?_eq_some found).1
  split at chosen
  · rename_i num found
    obtain rfl := Option.some.inj chosen
    exact (IndexSet.filter_first?_eq_some found).1
  split at chosen
  · cases chosen
  · rename_i gone
    obtain rfl := Option.some.inj chosen
    exact Bool.eq_false_iff.2 gone

theorem turn_nextFrame {stream : WatchStream} {room : Conversation} {wanted : NextFrame}
    (chosen : stream.nextFrame? room = some wanted) :
    (wanted = .name stream.namedPlayers ∨ room.players.length ≤ stream.namedPlayers) ∧
      (wanted = .farewell → ∀ num < room.players.length, ¬stream.players.contains num = true) := by
  unfold nextFrame? at chosen
  split at chosen
  · obtain rfl := Option.some.inj chosen
    exact ⟨Or.inl rfl, nofun⟩
  rename_i named
  refine ⟨Or.inr (Nat.le_of_not_lt named), ?_⟩
  rintro rfl
  split at chosen
  · cases chosen
  · rename_i settled
    exact (IndexSet.filter_first?_eq_none_iff _ _).1 settled

structure Selects (room : Conversation) (stream : WatchStream) (frame : Frame) (next : WatchStream) :
    Prop where
  tells : Tells room stream.agenda frame next.agenda
  inTurn : InTurn room stream.agenda frame
  owed : next.owed = frame.chunk ++ next.closing
  closing : next.closing = if frame = .finish then Chunk.lastChunk else []

theorem select_spec {stream next : WatchStream} {room : Conversation}
    (chosen : stream.select? room = some next) : ∃ frame, stream.Selects room frame next := by
  obtain ⟨wanted, found, made⟩ := Option.bind_eq_some_iff.1 chosen
  have due := due_nextFrame found
  obtain ⟨named, last⟩ := turn_nextFrame found
  have later (other : ∀ num, wanted ≠ .name num) : room.players.length ≤ stream.namedPlayers :=
    named.resolve_left (other _)
  cases wanted with
  | name num =>
    obtain ⟨player, known, rfl⟩ := Option.map_eq_some_iff.1 made
    obtain rfl : num = stream.namedPlayers := due
    exact ⟨player.nameFrame, .name known, ⟨Or.inl ⟨_, _, rfl⟩, nofun⟩, (List.append_nil _).symm, rfl⟩
  | status num =>
    obtain ⟨player, known, rfl⟩ := Option.map_eq_some_iff.1 made
    exact ⟨player.statusFrame, .status known due, ⟨Or.inr (later nofun), nofun⟩,
      (List.append_nil _).symm, rfl⟩
  | message index =>
    obtain ⟨message, known, rfl⟩ := Option.map_eq_some_iff.1 made
    obtain rfl : index = stream.nextMessage := due
    exact ⟨message.frame, .message known, ⟨Or.inr (later nofun), nofun⟩, (List.append_nil _).symm, rfl⟩
  | shout player =>
    obtain rfl := Option.some.inj made
    exact ⟨_, .shout due, ⟨Or.inr (later nofun), nofun⟩, (List.append_nil _).symm, rfl⟩
  | tile num =>
    obtain ⟨tile, known, rfl⟩ := Option.map_eq_some_iff.1 made
    exact ⟨tile.frame, .tile known due, ⟨Or.inr (later nofun), nofun⟩, (List.append_nil _).symm, rfl⟩
  | farewell =>
    obtain rfl := Option.some.inj made
    exact ⟨.finish, .farewell due, ⟨Or.inr (later nofun), fun _ => last rfl⟩, rfl, rfl⟩

/-- The bytes written so far and those still owed spell out the frames chosen so far. -/
structure Spelled (opening : Bytes) (frames : List Frame) (written : Bytes) (stream : WatchStream) :
    Prop where
  text : written ++ stream.owed = opening ++ frames.flatMap Frame.chunk ++ stream.closing

theorem agenda_settled (stream : WatchStream) : stream.settled.agenda = stream.agenda := by
  unfold settled
  split <;> rfl

theorem owed_writing (stream : WatchStream) (message : Bytes) (said : stream.message? = some message) :
    stream.owed = message.drop stream.pos ++ stream.settled.owed ∧
      stream.settled.closing = stream.closing := by
  unfold message? at said
  split at said <;> rename_i phase
  · obtain rfl := Option.some.inj said
    simp only [owed, settled, closing, phase, List.drop_zero, and_self]
  · obtain rfl := Option.some.inj said
    simp only [owed, settled, closing, phase, List.append_nil, Frame.chunk, and_self]
  · obtain rfl := Option.some.inj said
    simp only [owed, settled, closing, phase, List.append_nil, and_self]
  all_goals cases said

theorem closing_advance (stream : WatchStream) (count : Nat) :
    (stream.advance count).closing = stream.closing := rfl

/-- What every frame chosen keeps is kept by a read, and what is read spells out the frames
chosen meanwhile. -/
theorem read_keeps (room : Conversation) (keeps : List Frame → WatchStream → Prop)
    (still : ∀ {told stream later}, later.agenda = stream.agenda → later.closing = stream.closing →
      keeps told stream → keeps told later)
    (selects : ∀ {told stream frame next}, stream.closing = [] → stream.Selects room frame next →
      keeps told stream → keeps (told ++ [frame]) next)
    (size : Nat) (stream : WatchStream) {opening written : Bytes} {base told : List Frame}
    (holds : keeps told stream) (spelled : Spelled opening (base ++ told) written stream) :
    ∃ more, keeps (told ++ more) (stream.read room size).2 ∧
      Spelled opening (base ++ (told ++ more)) (written ++ (stream.read room size).1)
        (stream.read room size).2 := by
  -- What was written and what is owed spell the frames told, wherever in its message a stream stops.
  induction size, stream using reading_induction room generalizing written told with
  | writing size stream message said ih =>
    obtain ⟨rest, closing⟩ := owed_writing stream message said
    rw [read_writing room stream size message said]
    by_cases fits : message.length ≤ stream.pos + size
    · rw [if_pos fits]
      have settled : Spelled opening (base ++ told) (written ++ message.drop stream.pos) stream.settled :=
        ⟨by rw [closing, List.append_assoc, ← rest, spelled.text]⟩
      obtain ⟨more, kept, spells⟩ := ih fits (still (agenda_settled stream) closing holds) settled
      rw [List.append_assoc written] at spells
      exact ⟨more, kept, spells⟩
    · rw [if_neg fits]
      have same : (stream.advance size).agenda = stream.agenda := rfl
      have advanced := still same (closing_advance stream size) holds
      refine ⟨[], by rw [List.append_nil]; exact advanced, ⟨?_⟩⟩
      have split : (message.drop stream.pos).take size ++ message.drop (stream.pos + size) =
          message.drop stream.pos := by
        rw [← List.drop_drop, List.take_append_drop]
      obtain ⟨later, _⟩ := owed_writing (stream.advance size) message said
      calc
        written ++ (message.drop stream.pos).take size ++ (stream.advance size).owed =
            written ++ ((message.drop stream.pos).take size ++ message.drop (stream.pos + size) ++
              stream.settled.owed) := by
          rw [later, pos_advance, settled_advance stream size message said, List.append_assoc,
            List.append_assoc]
        _ = written ++ stream.owed := by rw [split, rest]
        _ = _ := by rw [spelled.text, List.append_nil, closing_advance]
  | waiting size stream phase ih =>
    have unchanged : ∃ more, keeps (told ++ more) stream ∧
        Spelled opening (base ++ (told ++ more)) (written ++ []) stream :=
      ⟨[], by rw [List.append_nil]; exact holds, by rw [List.append_nil, List.append_nil]; exact spelled⟩
    rw [read_waiting room stream size phase]
    by_cases none : size = 0
    · rw [if_pos none]
      exact unchanged
    · rw [if_neg none]
      cases chosen : stream.select? room with
      | none => exact unchanged
      | some next =>
        obtain ⟨frame, selected⟩ := select_spec chosen
        have idle : stream.owed = [] ∧ stream.closing = [] := by
          simp only [WatchStream.owed, closing, phase, and_self]
        have begun : Spelled opening (base ++ (told ++ [frame])) written next := by
          constructor
          calc
            written ++ next.owed = written ++ stream.owed ++ next.owed := by
              rw [idle.1, List.append_nil]
            _ = opening ++ (base ++ told).flatMap Frame.chunk ++ next.owed := by
              rw [spelled.text, idle.2, List.append_nil]
            _ = opening ++ (base ++ (told ++ [frame])).flatMap Frame.chunk ++ next.closing := by
              rw [selected.owed]
              simp only [List.flatMap_append, List.flatMap_singleton, List.append_assoc]
        obtain ⟨more, kept, spells⟩ := ih next chosen (selects idle.2 selected holds) begun
        rw [List.append_assoc told] at kept spells
        exact ⟨frame :: more, kept, spells⟩
  | done size stream phase =>
    rw [read_done room stream size phase]
    exact ⟨[], by rw [List.append_nil]; exact holds, by rw [List.append_nil, List.append_nil]; exact spelled⟩

theorem read_spelled (room : Conversation) (size : Nat) (stream : WatchStream) {opening written : Bytes}
    {frames : List Frame} (spelled : Spelled opening frames written stream) :
    ∃ more, Recites room stream.agenda more (stream.read room size).2.agenda ∧
      Spelled opening (frames ++ more) (written ++ (stream.read room size).1)
        (stream.read room size).2 := by
  have begun : Spelled opening (frames ++ []) written stream := by
    rw [List.append_nil]
    exact spelled
  refine read_keeps room (fun told later => Recites room stream.agenda told later.agenda) ?_ ?_ size stream
    .nil begun
  · intro told earlier later same _ recites
    rw [same]
    exact recites
  · intro told earlier frame next _ selected recites
    exact recites.concat selected.tells

structure Drained (stream : WatchStream) (room : Conversation) : Prop where
  phase : stream.phase = .waiting
  named : room.players.length ≤ stream.namedPlayers
  told : room.messages.length ≤ stream.nextMessage
  players : ∀ num < room.players.length, ¬stream.players.contains num = true
  shouts : ∀ num, ¬stream.shouts.contains num = true
  tiles : ∀ num < room.tiles.length, ¬stream.tiles.contains num = true
  connected : room.isConnected stream.player = true

theorem drained_of_nextFrame {stream : WatchStream} {room : Conversation}
    (phase : stream.phase = .waiting) (none : stream.nextFrame? room = none) :
    stream.Drained room := by
  unfold nextFrame? at none
  split at none
  · cases none
  rename_i named
  split at none
  · cases none
  rename_i players
  split at none
  · cases none
  rename_i told
  split at none
  · cases none
  rename_i shouts
  split at none
  · cases none
  rename_i tiles
  split at none
  · rename_i connected
    exact ⟨phase, Nat.le_of_not_lt named, Nat.le_of_not_lt told,
      (IndexSet.filter_first?_eq_none_iff _ _).1 players, (IndexSet.first?_eq_none_iff _).1 shouts,
      (IndexSet.filter_first?_eq_none_iff _ _).1 tiles, connected⟩
  · cases none

theorem drained_of_idle {stream : WatchStream} {room : Conversation}
    (unfinished : stream.isFinished = false) (idle : stream.hasPending room = false) :
    stream.Drained room := by
  unfold hasPending at idle
  split at idle
  · rename_i phase
    exact drained_of_nextFrame phase (by simpa using idle)
  · rename_i phase
    simp [isFinished, phase] at unfinished
  · cases idle

theorem Drained.written {stream : WatchStream} {room : Conversation} (drained : stream.Drained room)
    {opening written : Bytes} {frames : List Frame} (spelled : Spelled opening frames written stream) :
    written = opening ++ frames.flatMap Frame.chunk := by
  have text := spelled.text
  simpa only [owed, closing, drained.phase, List.append_nil] using text

theorem spelled_opened (room : Conversation) (id : PersonId) (player lastMessage : Nat)
    (keyHash : Option Key.Hash) :
    Spelled (opening keyHash) [.header player id] [] (opened room id player lastMessage keyHash) :=
  ⟨by simp [owed, closing, opened]⟩

end WatchStream

end TileRoom
