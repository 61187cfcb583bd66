import TileRoom.Proofs.RoomChanges
import TileRoom.Proofs.Telling
import TileRoom.Room

/-! How changes of a room reach its streams. The listeners of each signal are the
streams of the room in the order they were opened, so a stream hears of every change
once. -/

namespace TileRoom

structure Noted (before : Agenda) (changes : List Change) (after : Agenda) : Prop where
  player : after.player = before.player
  namedPlayers : after.namedPlayers = before.namedPlayers
  nextMessage : after.nextMessage = before.nextMessage
  players : ∀ num, after.players.contains num = true ↔
    before.players.contains num = true ∨ (num < 64 ∧ .player num ∈ changes)
  shouts : ∀ num, after.shouts.contains num = true ↔
    before.shouts.contains num = true ∨ (num < 64 ∧ .shouting num ∈ changes)
  tiles : ∀ num, after.tiles.contains num = true ↔
    before.tiles.contains num = true ∨ (num < 128 ∧ .tile num ∈ changes)

namespace WatchStream

theorem noted_note (stream : WatchStream) (change : Change) :
    Noted stream.agenda [change] (stream.note change).agenda := by
  have reads {capacity : Nat} (set : IndexSet capacity) (index num : Nat) :
      (set.insert index).contains num = true ↔
        set.contains num = true ∨ (num < capacity ∧ num = index) := by
    rw [IndexSet.contains_insert_iff]
    refine or_congr_right ⟨?_, ?_⟩ <;> rintro ⟨inside, rfl⟩ <;> exact ⟨inside, rfl⟩
  cases change <;> exact ⟨rfl, rfl, rfl, by simp [note, agenda, reads], by simp [note, agenda, reads],
    by simp [note, agenda, reads]⟩

theorem noted_foldl (changes : List Change) (stream : WatchStream) :
    Noted stream.agenda changes (changes.foldl note stream).agenda := by
  induction changes generalizing stream with
  | nil => exact ⟨rfl, rfl, rfl, by simp, by simp, by simp⟩
  | cons change rest ih =>
    have first := noted_note stream change
    have others := ih (stream.note change)
    rw [List.foldl_cons]
    refine ⟨others.player.trans first.player, others.namedPlayers.trans first.namedPlayers,
      others.nextMessage.trans first.nextMessage, ?_, ?_, ?_⟩ <;> intro num
    · rw [others.players, first.players, List.mem_singleton, List.mem_cons, or_assoc, ← and_or_left]
    · rw [others.shouts, first.shouts, List.mem_singleton, List.mem_cons, or_assoc, ← and_or_left]
    · rw [others.tiles, first.tiles, List.mem_singleton, List.mem_cons, or_assoc, ← and_or_left]

theorem text_note (stream : WatchStream) (change : Change) :
    (stream.note change).owed = stream.owed ∧ (stream.note change).closing = stream.closing := by
  cases change <;> exact ⟨rfl, rfl⟩

theorem closing_foldl_note (changes : List Change) (stream : WatchStream) :
    (changes.foldl note stream).closing = stream.closing := by
  induction changes generalizing stream with
  | nil => rfl
  | cons change rest ih => rw [List.foldl_cons, ih, (text_note stream change).2]

theorem Spelled.note {opening written : Bytes} {frames : List Frame} {stream : WatchStream}
    (spelled : Spelled opening frames written stream) (changes : List Change) :
    Spelled opening frames written (changes.foldl note stream) := by
  induction changes generalizing stream with
  | nil => exact spelled
  | cons change rest ih =>
    obtain ⟨owed, closing⟩ := text_note stream change
    exact ih ⟨by rw [owed, closing, spelled.text]⟩

end WatchStream

theorem Table.entries_put {key value : Type} [DecidableEq key] (table : Table key value) {wanted : key}
    (unknown : wanted ∉ table.keys) (entered : value) :
    (table.put wanted entered).entries = table.entries ++ [(wanted, entered)] := by
  rw [put, dif_neg unknown]

/-- The listeners of a signal are the streams of a table, each under its own id. -/
structure Signal.Serves (signal : Signal WatchId) (idOf : Watch → ListenerId)
    (watches : Table WatchId Watch) : Prop where
  listeners : signal.listeners = watches.entries.map fun entry => (idOf entry.2, entry.1)
  distinct : (signal.listeners.map (·.1)).Nodup
  given : ∀ id ∈ signal.listeners.map (·.1), id < signal.nextId

namespace Room

/-- Every stream listens to both signals, and ids are not given out twice. -/
structure Wired (room : Room) : Prop where
  changed : room.changed.Serves (·.changed) room.watches
  playerChanged : room.playerChanged.Serves (·.playerChanged) room.watches
  fresh : ∀ watch ∈ room.watches.keys, watch < room.nextWatch

theorem wired_ofConversation (conversation : Conversation) : ({ conversation } : Room).Wired :=
  ⟨⟨rfl, List.nodup_nil, by simp [Signal.empty]⟩, ⟨rfl, List.nodup_nil, by simp [Signal.empty]⟩,
    by simp [Table.keys, Table.empty]⟩

end Room

theorem Signal.Serves.labels {signal : Signal WatchId} {idOf : Watch → ListenerId}
    {watches : Table WatchId Watch} (serves : signal.Serves idOf watches) :
    signal.listeners.map (·.2) = watches.keys := by
  rw [serves.listeners, List.map_map]
  rfl

theorem Signal.Serves.update {signal : Signal WatchId} {idOf : Watch → ListenerId}
    {watches : Table WatchId Watch} (serves : signal.Serves idOf watches) (watch : WatchId)
    (f : Watch → Watch) (same : ∀ found, idOf (f found) = idOf found) :
    signal.Serves idOf (watches.update watch f) where
  listeners := by
    rw [serves.listeners, Table.update, List.map_map]
    apply List.map_congr_left
    intro entry _
    rw [Function.comp_apply, Table.change_key, Table.change]
    split
    · rw [same]
    · rfl
  distinct := serves.distinct
  given := serves.given

theorem Signal.Serves.subscribe {signal : Signal WatchId} {idOf : Watch → ListenerId}
    {watches : Table WatchId Watch} (serves : signal.Serves idOf watches) (watch : WatchId)
    (fresh : watch ∉ watches.keys) (entered : Watch) (id : idOf entered = signal.nextId) :
    (signal.subscribe watch).2.Serves idOf (watches.put watch entered) := by
  refine ⟨?_, ?_, ?_⟩
  · rw [watches.entries_put fresh, List.map_append, ← serves.listeners, List.map_singleton, id]
    rfl
  · simp only [Signal.subscribe, List.map_append, List.map_cons, List.map_nil]
    refine List.nodup_append.2 ⟨serves.distinct, by simp, ?_⟩
    intro first known second last same
    have below := serves.given first known
    rw [List.mem_singleton.1 last] at same
    exact Nat.ne_of_lt below same
  · simp only [Signal.subscribe, List.map_append, List.map_cons, List.map_nil, List.mem_append,
      List.mem_singleton]
    rintro id (known | rfl)
    · exact Nat.lt_succ_of_lt (serves.given id known)
    · exact Nat.lt_succ_self _

theorem eraseP_listeners (idOf : Watch → ListenerId) (watch : WatchId) (found : Watch)
    (entries : List (WatchId × Watch)) (streams : (entries.map (·.1)).Nodup)
    (ids : (entries.map fun entry => idOf entry.2).Nodup) (known : (watch, found) ∈ entries) :
    (entries.map fun entry => (idOf entry.2, entry.1)).eraseP (·.1 = idOf found) =
      (entries.filter (·.1 ≠ watch)).map fun entry => (idOf entry.2, entry.1) := by
  induction entries with
  | nil => cases known
  | cons entry rest ih =>
    obtain ⟨freshStream, streams⟩ := List.nodup_cons.1 streams
    obtain ⟨freshId, ids⟩ := List.nodup_cons.1 ids
    rcases List.mem_cons.1 known with rfl | later
    · have kept : rest.filter (·.1 ≠ watch) = rest :=
        List.filter_eq_self.2 fun other member => decide_eq_true fun same =>
          freshStream (List.mem_map.2 ⟨other, member, same⟩)
      rw [List.map_cons, List.eraseP_cons_of_pos (by simp), List.filter_cons_of_neg (by simp), kept]
    · have otherStream : entry.1 ≠ watch := fun same =>
        freshStream (List.mem_map.2 ⟨_, later, same.symm⟩)
      have otherId : idOf entry.2 ≠ idOf found := fun same =>
        freshId (List.mem_map.2 ⟨_, later, same.symm⟩)
      rw [List.map_cons, List.eraseP_cons_of_neg (by simpa using otherId), ih streams ids later,
        List.filter_cons_of_pos (by simpa using otherStream), List.map_cons]

theorem Signal.Serves.unsubscribe {signal : Signal WatchId} {idOf : Watch → ListenerId}
    {watches : Table WatchId Watch} (serves : signal.Serves idOf watches) {watch : WatchId}
    {found : Watch} (known : watches.find? watch = some found) :
    (signal.unsubscribe (idOf found)).2.Serves idOf (watches.erase watch) := by
  have entry : (watch, found) ∈ watches.entries := by
    obtain ⟨pair, hit, made⟩ := Option.map_eq_some_iff.1 known
    have key := List.find?_some hit
    simp only [decide_eq_true_eq] at key
    rw [← key, ← made]
    exact List.mem_of_find?_eq_some hit
  have ids : (watches.entries.map fun entry => idOf entry.2).Nodup := by
    have distinct := serves.distinct
    rw [serves.listeners, List.map_map] at distinct
    exact distinct
  have sublist : (signal.listeners.eraseP (·.1 = idOf found)).Sublist signal.listeners :=
    List.eraseP_sublist
  refine ⟨?_, (sublist.map _).nodup serves.distinct, fun id member =>
    serves.given id ((sublist.map _).subset member)⟩
  change signal.listeners.eraseP _ = _
  rw [serves.listeners]
  exact eraseP_listeners idOf watch found watches.entries watches.distinct ids entry

namespace Room

theorem wired_updateStream {room : Room} (wired : room.Wired) (watch : WatchId)
    (f : WatchStream → WatchStream) : (room.updateStream watch f).Wired :=
  ⟨wired.changed.update watch _ fun _ => rfl, wired.playerChanged.update watch _ fun _ => rfl,
    fun other member => wired.fresh other (by rwa [updateStream, Table.keys_update] at member)⟩

theorem stream?_updateStream (room : Room) (watch other : WatchId) (f : WatchStream → WatchStream) :
    (room.updateStream watch f).stream? other =
      if watch = other then (room.stream? other).map f else room.stream? other := by
  rw [stream?, updateStream, Table.find?_update]
  split
  · rw [stream?, Option.map_map, Option.map_map]
    rfl
  · rfl

theorem foldl_note (change : Change) (heard : List WatchId) (distinct : heard.Nodup) (room : Room)
    (watch : WatchId) :
    (heard.foldl (fun room listener => room.updateStream listener (·.note change)) room).stream? watch =
      if watch ∈ heard then (room.stream? watch).map (·.note change) else room.stream? watch := by
  induction heard generalizing room with
  | nil => simp
  | cons first rest ih =>
    obtain ⟨fresh, distinct⟩ := List.nodup_cons.1 distinct
    rw [List.foldl_cons, ih distinct, stream?_updateStream]
    by_cases here : first = watch
    · subst here
      rw [if_neg fresh, if_pos rfl, if_pos (List.mem_cons_self ..)]
    · rw [if_neg here]
      by_cases later : watch ∈ rest
      · rw [if_pos later, if_pos (List.mem_cons_of_mem _ later)]
      · rw [if_neg later, if_neg (by simp [Ne.symm here, later])]

theorem tell_eq (room : Room) (change : Change) :
    room.tell change = ((room.signalOf change).listeners.map (·.2)).foldl
      (fun room listener => room.updateStream listener (·.note change)) room := by
  rw [tell, Signal.emit, List.foldl_map, List.foldl_map]

theorem labels_signalOf {room : Room} (wired : room.Wired) (change : Change) :
    (room.signalOf change).listeners.map (·.2) = room.watches.keys := by
  cases change with
  | player => exact wired.playerChanged.labels
  | started | messageAdded | tile | shouting => exact wired.changed.labels

theorem wired_foldl_note (change : Change) (heard : List WatchId) {room : Room} (wired : room.Wired) :
    (heard.foldl (fun room listener => room.updateStream listener (·.note change)) room).Wired := by
  induction heard generalizing room with
  | nil => exact wired
  | cons first rest ih => exact ih (wired_updateStream wired first _)

theorem wired_tell {room : Room} (wired : room.Wired) (change : Change) : (room.tell change).Wired := by
  rw [tell_eq]
  exact wired_foldl_note change _ wired

theorem stream?_tell {room : Room} (wired : room.Wired) (change : Change) (watch : WatchId) :
    (room.tell change).stream? watch = (room.stream? watch).map (·.note change) := by
  have distinct : room.watches.keys.Nodup := room.watches.distinct
  rw [tell_eq, labels_signalOf wired, foldl_note change _ distinct]
  split
  · rfl
  · rename_i absent
    rw [stream?, (Table.find?_eq_none_iff _ _).2 absent]
    rfl

theorem foldl_tell {room : Room} (wired : room.Wired) (changes : List Change) (watch : WatchId) :
    (changes.foldl tell room).Wired ∧
      (changes.foldl tell room).stream? watch =
        (room.stream? watch).map fun stream => changes.foldl WatchStream.note stream := by
  induction changes generalizing room with
  | nil => exact ⟨wired, Option.map_id'.symm⟩
  | cons change rest ih =>
    obtain ⟨later, heard⟩ := ih (wired_tell wired change)
    refine ⟨later, ?_⟩
    rw [List.foldl_cons, heard, stream?_tell wired, Option.map_map]
    rfl

theorem foldl_tell_eq (changes : List Change) (room : Room) :
    changes.foldl tell room = { room with watches := (changes.foldl tell room).watches } := by
  have streams (change : Change) (heard : List WatchId) (room : Room) :
      let told := heard.foldl (fun room listener => room.updateStream listener (·.note change)) room
      told = { room with watches := told.watches } := by
    induction heard generalizing room with
    | nil => rfl
    | cons first rest ih => exact ih _
  induction changes generalizing room with
  | nil => rfl
  | cons change rest ih =>
    have told := streams change ((room.signalOf change).listeners.map (·.2)) room
    rw [← tell_eq] at told
    rw [List.foldl_cons, ih (room.tell change), told]

theorem act_eq (room : Room) (action : Action) :
    (room.act action).2 =
      { room with conversation := (room.conversation.act action).after, watches := (room.act action).2.watches } :=
  foldl_tell_eq _ _

theorem conversation_act (room : Room) (action : Action) :
    (room.act action).2.conversation = (room.conversation.act action).after :=
  congrArg conversation (act_eq room action)

theorem wired_conversation {room : Room} (wired : room.Wired) (conversation : Conversation) :
    Wired { room with conversation } :=
  ⟨wired.changed, wired.playerChanged, wired.fresh⟩

theorem wired_act {room : Room} (wired : room.Wired) (action : Action) : (room.act action).2.Wired :=
  (foldl_tell (wired_conversation wired (room.conversation.act action).after) _ 0).1

theorem stream?_act {room : Room} (wired : room.Wired) (action : Action) (watch : WatchId) :
    (room.act action).2.stream? watch = (room.stream? watch).map fun stream =>
      (room.conversation.act action).changes.foldl WatchStream.note stream :=
  (foldl_tell (wired_conversation wired (room.conversation.act action).after) _ watch).2

theorem not_mem_nextWatch {room : Room} (wired : room.Wired) : room.nextWatch ∉ room.watches.keys :=
  fun member => Nat.lt_irrefl _ (wired.fresh _ member)

theorem wired_watch {room : Room} (wired : room.Wired) (id : PersonId) (player lastMessage : Nat)
    (keyHash : Option Key.Hash) : (room.watch id player lastMessage keyHash).2.Wired := by
  have unknown := not_mem_nextWatch wired
  refine ⟨wired.changed.subscribe _ unknown _ rfl, wired.playerChanged.subscribe _ unknown _ rfl,
    ?_⟩
  intro other member
  rw [watch, Table.keys, room.watches.entries_put unknown, List.map_append, List.mem_append,
    List.map_singleton, List.mem_singleton] at member
  rcases member with known | rfl
  · exact Nat.lt_succ_of_lt (wired.fresh other known)
  · exact Nat.lt_succ_self _

theorem stream?_watch (room : Room) (id : PersonId) (player lastMessage : Nat)
    (keyHash : Option Key.Hash) (other : WatchId) :
    (room.watch id player lastMessage keyHash).2.stream? other =
      if room.nextWatch = other then
        some (.opened room.conversation id player lastMessage keyHash)
      else room.stream? other := by
  rw [stream?, watch]
  simp only [Table.find?_put]
  split
  · rfl
  · rfl

theorem wired_read {room : Room} (wired : room.Wired) (watch : WatchId) (size : Nat) :
    (room.read watch size).2.Wired := by
  unfold read
  cases room.stream? watch with
  | none => exact wired
  | some stream => exact wired_updateStream wired watch fun _ => (stream.read room.conversation size).2

theorem conversation_read (room : Room) (watch : WatchId) (size : Nat) :
    (room.read watch size).2.conversation = room.conversation := by
  unfold read
  split <;> rfl

theorem read_some {room : Room} {watch : WatchId} {stream : WatchStream}
    (found : room.stream? watch = some stream) (size : Nat) :
    (room.read watch size).1 = (stream.read room.conversation size).1 ∧
      (room.read watch size).2.stream? watch = some (stream.read room.conversation size).2 ∧
      (room.read watch size).2.conversation = room.conversation := by
  unfold read
  rw [found]
  refine ⟨rfl, ?_, rfl⟩
  change (room.updateStream watch _).stream? watch = _
  rw [stream?_updateStream, if_pos rfl, found]
  rfl

theorem wired_unwatch {room : Room} (wired : room.Wired) (watch : WatchId) :
    (room.unwatch watch).2.Wired := by
  unfold unwatch
  split
  · exact wired
  · rename_i found known
    refine ⟨wired.changed.unsubscribe known, wired.playerChanged.unsubscribe known,
      fun other member => wired.fresh other ?_⟩
    obtain ⟨entry, kept, rfl⟩ := List.mem_map.1 member
    exact List.mem_map.2 ⟨entry, (List.mem_filter.1 kept).1, rfl⟩

theorem stream?_unwatch (room : Room) (watch other : WatchId) (different : watch ≠ other) :
    (room.unwatch watch).2.stream? other = room.stream? other ∧
      (room.unwatch watch).2.conversation = room.conversation := by
  unfold unwatch
  split
  · exact ⟨rfl, rfl⟩
  · refine ⟨?_, rfl⟩
    rw [stream?, stream?]
    simp only [Table.erase, Table.find?_keep]
    cases room.watches.find? other with
    | none => rfl
    | some found => simp [Option.filter, Ne.symm different]

end Room

/-- What may become of a room: an operation and new streams, with the streams that are kept
noticing the changes. -/
structure Room.Turns (kept : WatchId → Prop) (before after : Room) : Prop where
  wired : after.Wired
  consistent : after.conversation.Consistent
  letters : after.conversation.letters = before.conversation.letters
  given : before.nextWatch ≤ after.nextWatch
  altered : ∃ changes, before.conversation.Altered changes after.conversation ∧
    ∀ watch stream, kept watch → before.stream? watch = some stream →
      after.stream? watch = some (changes.foldl WatchStream.note stream)

namespace Room

variable {room before middle : Room} {kept : WatchId → Prop}

theorem lt_of_stream? (wired : room.Wired) {watch : WatchId} {stream : WatchStream}
    (found : room.stream? watch = some stream) : watch < room.nextWatch := by
  apply wired.fresh watch
  apply Classical.byContradiction
  intro absent
  rw [stream?, (Table.find?_eq_none_iff _ _).2 absent] at found
  cases found

theorem turns_same (wired : room.Wired) (consistent : room.conversation.Consistent) : room.Turns kept room :=
  ⟨wired, consistent, rfl, Nat.le_refl _, [], .same _, fun _ _ _ found => found⟩

theorem turns_act (wired : room.Wired) (consistent : room.conversation.Consistent) (action : Action) :
    room.Turns kept (room.act action).2 := by
  have given : (room.act action).2.nextWatch = room.nextWatch := by rw [act_eq]
  refine ⟨wired_act wired action, ?_, ?_, Nat.le_of_eq given.symm, (room.conversation.act action).changes, ?_,
    ?_⟩
  · rw [conversation_act]
    exact Conversation.consistent_act consistent action
  · rw [conversation_act, Conversation.letters_act]
  · rw [conversation_act]
    exact Conversation.altered_act _ action
  · intro watch stream _ found
    rw [stream?_act wired, found, Option.map_some]

theorem Turns.watch (turns : before.Turns kept middle) (wired : before.Wired) (id : PersonId)
    (player lastMessage : Nat) (keyHash : Option Key.Hash) :
    before.Turns kept (middle.watch id player lastMessage keyHash).2 := by
  obtain ⟨changes, altered, streams⟩ := turns.altered
  refine ⟨wired_watch turns.wired _ _ _ _, turns.consistent, turns.letters, Nat.le_succ_of_le turns.given,
    changes, altered, ?_⟩
  intro watch stream keeps found
  have old := Nat.lt_of_lt_of_le (lt_of_stream? wired found) turns.given
  rw [stream?_watch, if_neg (Nat.ne_of_gt old)]
  exact streams watch stream keeps found

theorem Turns.unwatch (turns : before.Turns kept middle) (watch : WatchId)
    (apart : ∀ other, kept other → watch ≠ other) : before.Turns kept (middle.unwatch watch).2 := by
  obtain ⟨changes, altered, streams⟩ := turns.altered
  have same : (middle.unwatch watch).2.conversation = middle.conversation ∧
      (middle.unwatch watch).2.nextWatch = middle.nextWatch := by
    unfold Room.unwatch
    split <;> exact ⟨rfl, rfl⟩
  refine ⟨wired_unwatch turns.wired watch, ?_, ?_, ?_, changes, ?_, ?_⟩
  · rw [same.1]
    exact turns.consistent
  · rw [same.1]
    exact turns.letters
  · rw [same.2]
    exact turns.given
  · rw [same.1]
    exact altered
  · intro other stream keeps found
    rw [(stream?_unwatch middle watch other (apart other keeps)).1]
    exact streams other stream keeps found

theorem turns_read (wired : room.Wired) (consistent : room.conversation.Consistent) (watch : WatchId)
    (size : Nat) (apart : ∀ other, kept other → watch ≠ other) : room.Turns kept (room.read watch size).2 := by
  cases known : room.stream? watch with
  | none =>
    rw [read, known]
    exact turns_same wired consistent
  | some stream =>
    have after : (room.read watch size).2 =
        room.updateStream watch fun _ => (stream.read room.conversation size).2 := by
      rw [read, known]
    rw [after]
    refine ⟨wired_updateStream wired watch _, consistent, rfl, Nat.le_refl _, [], .same _, ?_⟩
    intro other found keeps there
    rw [stream?_updateStream, if_neg (apart other keeps)]
    exact there

end Room

end TileRoom
