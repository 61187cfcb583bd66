import TileRoom.Proofs.Telling

/-! A stream can be drained. Each frame it tells makes its agenda shorter, so in a room
where nothing changes a large enough read leaves a stream of a connected player with
nothing to say. -/

namespace TileRoom

theorem IndexSet.count_erase_lt {capacity : Nat} (set : IndexSet capacity) (index : Nat)
    (member : set.contains index = true) : (set.erase index).count < set.count := by
  have inside := contains_lt set index member
  have kept : (set.erase index).contains = fun other => set.contains other && !decide (other = index) :=
    funext (contains_erase set index)
  have split :=
    List.countP_eq_countP_filter_add (List.range capacity) set.contains (fun other => !decide (other = index))
  have lost : 0 < ((List.range capacity).filter fun other => !!decide (other = index)).countP set.contains :=
    List.countP_pos_iff.2 ⟨index, List.mem_filter.2 ⟨List.mem_range.2 inside, by simp⟩, member⟩
  rw [List.countP_filter] at split
  unfold count
  rw [kept]
  omega

namespace Agenda

/-- How many frames are still to be told of a room. -/
def remaining (agenda : Agenda) (room : Conversation) : Nat :=
  (room.players.length - agenda.namedPlayers) + agenda.players.count +
    (room.messages.length - agenda.nextMessage) + agenda.shouts.count + agenda.tiles.count

end Agenda

theorem Tells.remaining_lt {room : Conversation} {agenda later : Agenda} {frame : Frame}
    (tells : Tells room agenda frame later) (other : frame ≠ .finish) :
    later.remaining room < agenda.remaining room := by
  unfold Agenda.remaining
  cases tells with
  | name unnamed =>
    have inside := (List.getElem?_eq_some_iff.1 unnamed).1
    simp only
    omega
  | message found =>
    have inside := (List.getElem?_eq_some_iff.1 found).1
    simp only
    omega
  | status found due =>
    have less := IndexSet.count_erase_lt _ _ due
    simp only
    omega
  | shout due =>
    have less := IndexSet.count_erase_lt _ _ due
    simp only
    omega
  | tile found due =>
    have less := IndexSet.count_erase_lt _ _ due
    simp only
    omega
  | farewell gone => exact absurd rfl other

namespace WatchStream

variable {room : Conversation} {stream next : WatchStream}

theorem choose_isSome {wanted : NextFrame} (chosen : stream.nextFrame? room = some wanted) :
    (stream.choose room wanted).isSome = true := by
  have here {record : Type} (records : List record) (num : Nat) (inside : num < records.length)
      (f : record → WatchStream) : ((records[num]?).map f).isSome = true := by
    rw [List.getElem?_eq_getElem inside]
    rfl
  unfold nextFrame? at chosen
  split at chosen
  · rename_i inside
    obtain rfl := Option.some.inj chosen
    exact here room.players _ inside _
  split at chosen
  · rename_i num found
    obtain rfl := Option.some.inj chosen
    exact here room.players _ (IndexSet.filter_first?_eq_some found).2 _
  split at chosen
  · rename_i inside
    obtain rfl := Option.some.inj chosen
    exact here room.messages _ inside _
  split at chosen
  · obtain rfl := Option.some.inj chosen
    rfl
  split at chosen
  · rename_i num found
    obtain rfl := Option.some.inj chosen
    exact here room.tiles _ (IndexSet.filter_first?_eq_some found).2 _
  split at chosen
  · cases chosen
  · obtain rfl := Option.some.inj chosen
    rfl

theorem phase_select (chosen : stream.select? room = some next)
    (present : room.isConnected stream.player = true) : next.phase = .frame := by
  obtain ⟨wanted, found, made⟩ := Option.bind_eq_some_iff.1 chosen
  cases wanted with
  | name | status | message | tile =>
    obtain ⟨_, _, rfl⟩ := Option.map_eq_some_iff.1 made
    rfl
  | shout =>
    obtain rfl := Option.some.inj made
    rfl
  | farewell =>
    have gone : room.isConnected stream.player = false := due_nextFrame found
    rw [present] at gone
    cases gone

theorem remaining_select (chosen : stream.select? room = some next) :
    next.phase = .farewell ∨
      next.phase = .frame ∧ next.agenda.remaining room < stream.agenda.remaining room := by
  obtain ⟨wanted, found, made⟩ := Option.bind_eq_some_iff.1 chosen
  have due := due_nextFrame found
  cases wanted with
  | name num =>
    obtain ⟨player, known, rfl⟩ := Option.map_eq_some_iff.1 made
    obtain rfl : num = stream.namedPlayers := due
    exact Or.inr ⟨rfl, (Tells.name known : Tells room stream.agenda _ _).remaining_lt nofun⟩
  | status num =>
    obtain ⟨player, known, rfl⟩ := Option.map_eq_some_iff.1 made
    exact Or.inr ⟨rfl, (Tells.status known due : Tells room stream.agenda _ _).remaining_lt nofun⟩
  | message index =>
    obtain ⟨message, known, rfl⟩ := Option.map_eq_some_iff.1 made
    obtain rfl : index = stream.nextMessage := due
    exact Or.inr ⟨rfl, (Tells.message known : Tells room stream.agenda _ _).remaining_lt nofun⟩
  | shout player =>
    obtain rfl := Option.some.inj made
    exact Or.inr ⟨rfl, (Tells.shout due : Tells room stream.agenda _ _).remaining_lt nofun⟩
  | tile num =>
    obtain ⟨tile, known, rfl⟩ := Option.map_eq_some_iff.1 made
    exact Or.inr ⟨rfl, (Tells.tile known due : Tells room stream.agenda _ _).remaining_lt nofun⟩
  | farewell =>
    obtain rfl := Option.some.inj made
    exact Or.inl rfl

/-- How many steps lie between the phase of a stream and its next choice. -/
def distance (stream : WatchStream) : Nat :=
  match stream.phase with
  | .head => 2
  | .frame => 1
  | .waiting | .farewell | .done => 0

theorem read_through (stream : WatchStream) (message : Bytes) (said : stream.message? = some message)
    (size : Nat) : (stream.read room (message.length - stream.pos + size)).2 =
      (stream.settled.read room size).2 := by
  rw [read_writing room stream _ message said, if_pos (by omega)]
  simp only
  rw [Nat.add_sub_cancel_left]

theorem exists_drained (room : Conversation) (stream : WatchStream)
    (present : room.isConnected stream.player = true)
    (ongoing : stream.phase ≠ .farewell ∧ stream.phase ≠ .done) :
    ∃ size, 0 < size ∧ (stream.read room size).2.isFinished = false ∧
      (stream.read room size).2.hasPending room = false := by
  -- A frame told is worth more than the steps that lead to the next choice.
  induction measured : 3 * stream.agenda.remaining room + stream.distance using Nat.strongRecOn
    generalizing stream with
  | ind bound ih =>
    subst measured
    have through (message : Bytes) (said : stream.message? = some message)
        (nearer : stream.settled.distance < stream.distance)
        (going : stream.settled.phase ≠ .farewell ∧ stream.settled.phase ≠ .done) :
        ∃ size, 0 < size ∧ (stream.read room size).2.isFinished = false ∧
          (stream.read room size).2.hasPending room = false := by
      have agenda := agenda_settled stream
      have player : stream.settled.player = stream.player := congrArg Agenda.player agenda
      obtain ⟨size, some, drained⟩ := ih _ (by rw [agenda]; omega) stream.settled
        (by rw [player]; exact present) going rfl
      exact ⟨message.length - stream.pos + size, by omega, by rwa [read_through stream message said size]⟩
    cases phase : stream.phase with
    | head =>
      refine through stream.head (by simp only [message?, phase]) ?_ ?_ <;>
        simp [settled, distance, phase]
    | frame =>
      refine through (Chunk.frame stream.current.payload) (by simp only [message?, phase]) ?_ ?_ <;>
        simp [settled, distance, phase]
    | waiting =>
      cases chosen : stream.nextFrame? room with
      | none =>
        refine ⟨1, Nat.one_pos, ?_⟩
        rw [read_waiting room stream 1 phase, if_neg (by decide), select?, chosen]
        simp [isFinished, hasPending, phase, chosen]
      | some wanted =>
        obtain ⟨next, made⟩ := Option.isSome_iff_exists.1 (choose_isSome chosen)
        have selected : stream.select? room = some next := by rw [select?, chosen, Option.bind_some, made]
        obtain ⟨frame, tells, _⟩ := select_spec selected
        have begun := phase_select selected present
        have less : next.agenda.remaining room < stream.agenda.remaining room := by
          rcases remaining_select selected with farewell | ⟨_, less⟩
          · cases begun.symm.trans farewell
          · exact less
        have near : next.distance = 1 := by rw [distance, begun]
        have player : next.player = stream.player := tells.player
        obtain ⟨size, some, drained⟩ := ih _ (by omega) next (by rw [player]; exact present)
          (by rw [begun]; decide) rfl
        refine ⟨size, some, ?_⟩
        rw [read_waiting room stream size phase, if_neg (by omega), selected]
        exact drained
    | farewell => exact absurd phase ongoing.1
    | done => exact absurd phase ongoing.2

/-- A stream has so much to say and no more, as long as nothing changes in its room. -/
theorem exists_bound (room : Conversation) (stream : WatchStream) :
    ∃ count, ∀ size, (stream.read room size).1.length ≤ count := by
  have through (stream : WatchStream) (message : Bytes) (said : stream.message? = some message)
      (later : ∃ count, ∀ size, (stream.settled.read room size).1.length ≤ count) :
      ∃ count, ∀ size, (stream.read room size).1.length ≤ count := by
    obtain ⟨count, bound⟩ := later
    refine ⟨message.length + count, fun size => ?_⟩
    rw [read_writing room stream size message said]
    split
    next =>
      have rest := bound (size - (message.length - stream.pos))
      rw [List.length_append, List.length_drop]
      omega
    next =>
      rw [List.length_take, List.length_drop]
      omega
  have told (stream : WatchStream) (phase : stream.phase = .done) :
      ∃ count, ∀ size, (stream.read room size).1.length ≤ count :=
    ⟨0, fun size => by rw [read_done room stream size phase]; exact Nat.le_refl 0⟩
  have last (stream : WatchStream) (phase : stream.phase = .farewell) :
      ∃ count, ∀ size, (stream.read room size).1.length ≤ count :=
    through stream Chunk.farewell (by rw [message?, phase]) (told _ (by rw [settled, phase]))
  induction measured : 3 * stream.agenda.remaining room + stream.distance using Nat.strongRecOn
    generalizing stream with
  | ind bound ih =>
    subst measured
    have agenda := agenda_settled stream
    cases phase : stream.phase with
    | head =>
      refine through stream stream.head (by rw [message?, phase]) (ih _ ?_ stream.settled rfl)
      rw [agenda]
      simp [settled, distance, phase]
    | frame =>
      refine through stream (Chunk.frame stream.current.payload) (by rw [message?, phase]) (ih _ ?_ stream.settled rfl)
      rw [agenda]
      simp [settled, distance, phase]
    | waiting =>
      cases chosen : stream.select? room with
      | none =>
        refine ⟨0, fun size => ?_⟩
        rw [read_waiting room stream size phase, chosen, Option.elim_none, ite_self]
        exact Nat.le_refl 0
      | some next =>
        have later : ∃ count, ∀ size, (next.read room size).1.length ≤ count := by
          rcases remaining_select chosen with farewell | ⟨frame, less⟩
          · exact last next farewell
          · have near : next.distance = 1 := by rw [distance, frame]
            exact ih _ (by omega) next rfl
        obtain ⟨count, bound⟩ := later
        refine ⟨count, fun size => ?_⟩
        rw [read_waiting room stream size phase, chosen, Option.elim_some]
        split
        next => exact Nat.zero_le count
        next => exact bound size
    | farewell => exact last stream phase
    | done => exact told stream phase

end WatchStream

end TileRoom
