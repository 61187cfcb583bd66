import TileRoom.Proofs.Moving

/-! Notices leave no trace. Whether a stream has a notice decides only when its connection looks
at it again: registries that differ in notices alone say the same on every stream, and whatever
a server does with them, they go on to differ in notices alone. -/

namespace TileRoom

namespace WatchStream

def notify (stream : WatchStream) : WatchStream :=
  { stream with notified := true }

theorem notify_note (stream : WatchStream) (change : Change) :
    stream.notify.note change = (stream.note change).notify := by
  cases change <;> rfl

theorem settled_notify (stream : WatchStream) : stream.notify.settled = stream.settled.notify := by
  cases phase : stream.phase <;> simp [settled, notify, phase]

theorem select?_notify (stream : WatchStream) (room : Conversation) :
    stream.notify.select? room = (stream.select? room).map notify := by
  have same : stream.notify.nextFrame? room = stream.nextFrame? room := rfl
  rw [select?, select?, same]
  cases stream.nextFrame? room with
  | none => rfl
  | some wanted =>
    cases wanted with
    | name | status | message | tile =>
      simp only [Option.bind_some, choose, Option.map_map]
      rfl
    | shout | farewell => rfl

theorem read_notify (room : Conversation) (size : Nat) (stream : WatchStream) :
    stream.notify.read room size = ((stream.read room size).1, (stream.read room size).2.notify) := by
  induction size, stream using reading_induction room with
  | writing size stream message said ih =>
    have place : stream.notify.pos = stream.pos := rfl
    rw [read_writing room stream.notify size message said, read_writing room stream size message said, place]
    by_cases fits : message.length ≤ stream.pos + size
    · rw [if_pos fits, if_pos fits, settled_notify, ih fits]
    · rw [if_neg fits, if_neg fits]
      rfl
  | waiting size stream phase ih =>
    rw [read_waiting room stream.notify size phase, read_waiting room stream size phase]
    by_cases full : size = 0
    · rw [if_pos full, if_pos full]
    · rw [if_neg full, if_neg full, select?_notify]
      cases chosen : stream.select? room with
      | none => rfl
      | some next => exact ih next chosen
  | done size stream phase =>
    rw [read_done room stream.notify size phase, read_done room stream size phase]

end WatchStream

def Watch.notify (watch : Watch) : Watch :=
  { watch with stream := watch.stream.notify }

namespace Room

/-- Rooms that differ in the notices of their streams at most. -/
structure Alike (room later : Room) : Prop where
  conversation : later.conversation = room.conversation
  changed : later.changed = room.changed
  playerChanged : later.playerChanged = room.playerChanged
  nextWatch : later.nextWatch = room.nextWatch
  watches : ∀ watch, (later.watches.find? watch).map Watch.notify = (room.watches.find? watch).map Watch.notify

variable {room later : Room}

theorem Alike.refl (room : Room) : room.Alike room :=
  ⟨rfl, rfl, rfl, rfl, fun _ => rfl⟩

theorem Alike.symm (alike : room.Alike later) : later.Alike room :=
  ⟨alike.conversation.symm, alike.changed.symm, alike.playerChanged.symm, alike.nextWatch.symm,
    fun watch => (alike.watches watch).symm⟩

theorem Alike.trans {middle : Room} (first : room.Alike middle) (second : middle.Alike later) :
    room.Alike later where
  conversation := second.conversation.trans first.conversation
  changed := second.changed.trans first.changed
  playerChanged := second.playerChanged.trans first.playerChanged
  nextWatch := second.nextWatch.trans first.nextWatch
  watches watch := (second.watches watch).trans (first.watches watch)

theorem Alike.find? (alike : room.Alike later) (watch : WatchId) :
    room.watches.find? watch = none ∧ later.watches.find? watch = none ∨
      ∃ one other, room.watches.find? watch = some one ∧ later.watches.find? watch = some other ∧
        other.notify = one.notify := by
  have same := alike.watches watch
  cases here : room.watches.find? watch with
  | none =>
    rw [here] at same
    exact Or.inl ⟨rfl, Option.map_eq_none_iff.1 same⟩
  | some one =>
    rw [here] at same
    obtain ⟨other, there, equal⟩ := Option.map_eq_some_iff.1 same
    exact Or.inr ⟨one, other, rfl, there, equal⟩

theorem Alike.stream? (alike : room.Alike later) (watch : WatchId) :
    room.stream? watch = none ∧ later.stream? watch = none ∨
      ∃ one other, room.stream? watch = some one ∧ later.stream? watch = some other ∧
        other.notify = one.notify := by
  rw [Room.stream?, Room.stream?]
  rcases alike.find? watch with ⟨here, there⟩ | ⟨one, other, here, there, same⟩
  · rw [here, there]
    exact Or.inl ⟨rfl, rfl⟩
  · rw [here, there]
    exact Or.inr ⟨one.stream, other.stream, rfl, rfl, congrArg Watch.stream same⟩

theorem Alike.updateStream (alike : room.Alike later) (watch : WatchId) (f g : WatchStream → WatchStream)
    (respects : ∀ one other : WatchStream, other.notify = one.notify → (g other).notify = (f one).notify) :
    (room.updateStream watch f).Alike (later.updateStream watch g) where
  conversation := alike.conversation
  changed := alike.changed
  playerChanged := alike.playerChanged
  nextWatch := alike.nextWatch
  watches other := by
    rw [Room.updateStream, Room.updateStream, Table.find?_update, Table.find?_update]
    split
    next =>
      rcases alike.find? other with ⟨here, there⟩ | ⟨one, another, here, there, same⟩
      · rw [here, there]
        rfl
      · rw [here, there]
        have told := respects one.stream another.stream (congrArg Watch.stream same)
        have changed : another.changed = one.changed := congrArg (·.changed) same
        have playerChanged : another.playerChanged = one.playerChanged := congrArg (·.playerChanged) same
        simp only [Option.map_some, Watch.notify, told, changed, playerChanged]
    next => exact alike.watches other

theorem Alike.tell (alike : room.Alike later) (change : Change) :
    (room.tell change).Alike (later.tell change) := by
  have signal : later.signalOf change = room.signalOf change := by
    cases change with
    | player => exact alike.playerChanged
    | started | messageAdded | tile | shouting => exact alike.changed
  rw [tell_eq, tell_eq, signal]
  clear signal
  generalize (room.signalOf change).listeners.map (·.2) = heard
  induction heard generalizing room later with
  | nil => exact alike
  | cons first rest ih =>
    refine ih (alike.updateStream first _ _ ?_)
    intro one other same
    rw [← WatchStream.notify_note, ← WatchStream.notify_note, same]

theorem Alike.act (alike : room.Alike later) (action : Action) :
    (room.act action).2.Alike (later.act action).2 := by
  have told (changes : List Change) {room later : Room} (alike : room.Alike later) :
      (changes.foldl Room.tell room).Alike (changes.foldl Room.tell later) := by
    induction changes generalizing room later with
    | nil => exact alike
    | cons change rest ih => exact ih (alike.tell change)
  unfold Room.act
  rw [alike.conversation]
  exact told _ ⟨rfl, alike.changed, alike.playerChanged, alike.nextWatch, alike.watches⟩

theorem Alike.watch (alike : room.Alike later) (id : PersonId) (player lastMessage : Nat)
    (keyHash : Option Key.Hash) :
    (room.watch id player lastMessage keyHash).2.Alike (later.watch id player lastMessage keyHash).2 := by
  unfold Room.watch
  rw [alike.conversation, alike.changed, alike.playerChanged, alike.nextWatch]
  refine ⟨rfl, rfl, rfl, rfl, fun other => ?_⟩
  rw [Table.find?_put, Table.find?_put]
  split
  next => rfl
  next => exact alike.watches other

theorem Alike.unwatch (alike : room.Alike later) (watch : WatchId) :
    (room.unwatch watch).2.Alike (later.unwatch watch).2 := by
  unfold Room.unwatch
  rcases alike.find? watch with ⟨here, there⟩ | ⟨one, other, here, there, same⟩
  · rw [here, there]
    exact alike
  · have changed : other.changed = one.changed := congrArg (·.changed) same
    have playerChanged : other.playerChanged = one.playerChanged := congrArg (·.playerChanged) same
    rw [here, there]
    simp only [changed, playerChanged, alike.changed, alike.playerChanged]
    refine ⟨alike.conversation, rfl, rfl, alike.nextWatch, fun another => ?_⟩
    rw [Table.find?_erase, Table.find?_erase]
    split
    next => rfl
    next => exact alike.watches another

theorem Alike.read (alike : room.Alike later) (watch : WatchId) (size : Nat) :
    (later.read watch size).1 = (room.read watch size).1 ∧
      (room.read watch size).2.Alike (later.read watch size).2 := by
  unfold Room.read
  rcases alike.stream? watch with ⟨here, there⟩ | ⟨one, other, here, there, same⟩
  · rw [here, there]
    exact ⟨rfl, alike⟩
  · have first := WatchStream.read_notify room.conversation size one
    have second := WatchStream.read_notify room.conversation size other
    rw [same, first] at second
    obtain ⟨bytes, stream⟩ := Prod.mk.inj second
    rw [here, there]
    simp only [alike.conversation]
    exact ⟨bytes.symm, alike.updateStream watch _ _ fun _ _ _ => stream.symm⟩

theorem Alike.takeNotice (alike : room.Alike later) (watch : WatchId) :
    (room.takeNotice watch).2.Alike (later.takeNotice watch).2 :=
  alike.updateStream watch ({ · with notified := false }) ({ · with notified := false }) fun _ _ same => same

theorem Alike.move (alike : room.Alike later) (move : RoomMove) : (room.move move).Alike (later.move move) := by
  cases move with
  | act action => exact alike.act action
  | watch id player lastMessage keyHash => exact alike.watch id player lastMessage keyHash
  | unwatch watch => exact alike.unwatch watch
  | read watch size => exact (alike.read watch size).2
  | takeNotice watch => exact alike.takeNotice watch

end Room

namespace Lobby

structure Alike (lobby later : Lobby) : Prop where
  pending : later.pending = lobby.pending
  count : later.rooms.length = lobby.rooms.length
  rooms : ∀ num room, lobby.room? num = some room → ∃ other, later.room? num = some other ∧ room.Alike other

variable {lobby later : Lobby}

theorem Alike.refl (lobby : Lobby) : lobby.Alike lobby :=
  ⟨rfl, rfl, fun _ room there => ⟨room, there, .refl room⟩⟩

theorem Alike.room? (alike : lobby.Alike later) (num : RoomNum) :
    lobby.room? num = none ∧ later.room? num = none ∨
      ∃ room other, lobby.room? num = some room ∧ later.room? num = some other ∧ room.Alike other := by
  cases here : lobby.room? num with
  | none =>
    rw [Lobby.room?, List.getElem?_eq_none_iff, ← alike.count] at here
    exact Or.inl ⟨rfl, List.getElem?_eq_none here⟩
  | some room =>
    obtain ⟨other, there, same⟩ := alike.rooms num room here
    exact Or.inr ⟨room, other, rfl, there, same⟩

theorem Alike.symm (alike : lobby.Alike later) : later.Alike lobby := by
  refine ⟨alike.pending.symm, alike.count.symm, fun num other found => ?_⟩
  rcases alike.room? num with ⟨_, there⟩ | ⟨room, twin, here, there, same⟩
  · cases found.symm.trans there
  · obtain rfl := Option.some.inj (found.symm.trans there)
    exact ⟨room, here, same.symm⟩

theorem Alike.trans {middle : Lobby} (first : lobby.Alike middle) (second : middle.Alike later) :
    lobby.Alike later := by
  refine ⟨second.pending.trans first.pending, second.count.trans first.count, fun num room here => ?_⟩
  obtain ⟨twin, there, same⟩ := first.rooms num room here
  obtain ⟨other, found, alike⟩ := second.rooms num twin there
  exact ⟨other, found, same.trans alike⟩

theorem Alike.isOpen (alike : lobby.Alike later) (num : RoomNum) : later.isOpen num = lobby.isOpen num := by
  rw [Lobby.isOpen, Lobby.isOpen]
  rcases alike.room? num with ⟨here, there⟩ | ⟨room, other, here, there, same⟩
  · rw [here, there]
  · rw [here, there]
    exact congrArg Conversation.isOpen same.conversation

theorem Alike.enter (alike : lobby.Alike later) (name : String) (bag : List Char) :
    (later.enter name bag).1 = (lobby.enter name bag).1 ∧
      (lobby.enter name bag).2.Alike (later.enter name bag).2 := by
  have free : later.isOpen = lobby.isOpen := funext alike.isOpen
  unfold Lobby.enter
  rw [alike.pending, free]
  split
  next => exact ⟨rfl, alike⟩
  next =>
    rw [alike.count]
    refine ⟨rfl, rfl, ?_, ?_⟩
    · rw [List.length_append, List.length_append, alike.count]
    · intro num room there
      simp only [Lobby.room?] at there ⊢
      by_cases inside : num < lobby.rooms.length
      · rw [List.getElem?_append_left inside] at there
        rw [List.getElem?_append_left (alike.count ▸ inside)]
        exact alike.rooms num room there
      · rw [List.getElem?_append_right (Nat.le_of_not_lt inside)] at there
        rw [List.getElem?_append_right (alike.count ▸ Nat.le_of_not_lt inside), alike.count]
        exact ⟨room, there, .refl room⟩

theorem Alike.prune (alike : lobby.Alike later) : lobby.prune.Alike later.prune := by
  have free : later.isOpen = lobby.isOpen := funext alike.isOpen
  refine ⟨?_, alike.count, alike.rooms⟩
  rw [Lobby.prune, Lobby.prune, alike.pending, free]

theorem Alike.move (alike : lobby.Alike later) (move : LobbyMove) : (lobby.move move).Alike (later.move move) := by
  cases move with
  | enter name bag => exact (alike.enter name bag).2
  | prune => exact alike.prune
  | within num inner =>
    constructor
    case pending => rw [pending_within, pending_within, alike.pending]
    case count => rw [length_within, length_within, alike.count]
    case rooms =>
      intro other room there
      rw [room?_within] at there ⊢
      split at there
      next here =>
        obtain ⟨before, known, rfl⟩ := Option.map_eq_some_iff.1 there
        obtain ⟨twin, found, same⟩ := alike.rooms other before known
        rw [if_pos here, found]
        exact ⟨_, rfl, same.move inner⟩
      next apart =>
        rw [if_neg apart]
        exact alike.rooms other room there

theorem Alike.moveAll (alike : lobby.Alike later) (moves : List LobbyMove) :
    (lobby.moveAll moves).Alike (later.moveAll moves) := by
  induction moves generalizing lobby later with
  | nil => exact alike
  | cons move rest ih => exact ih (alike.move move)

end Lobby

namespace Registry

variable {registry later : Registry}

structure Alike (registry later : Registry) : Prop where
  persons : later.persons = registry.persons
  lobby : registry.lobby.Alike later.lobby

theorem Alike.refl (registry : Registry) : registry.Alike registry :=
  ⟨rfl, .refl registry.lobby⟩

theorem Alike.symm (alike : registry.Alike later) : later.Alike registry :=
  ⟨alike.persons.symm, alike.lobby.symm⟩

theorem Alike.trans {middle : Registry} (first : registry.Alike middle) (second : middle.Alike later) :
    registry.Alike later :=
  ⟨second.persons.trans first.persons, first.lobby.trans second.lobby⟩

theorem Alike.conversation? (alike : registry.Alike later) (num : RoomNum) :
    later.conversation? num = registry.conversation? num := by
  rw [Registry.conversation?, Registry.conversation?]
  rcases alike.lobby.room? num with ⟨here, there⟩ | ⟨room, other, here, there, same⟩
  · rw [here, there]
  · rw [here, there, Option.map_some, Option.map_some, same.conversation]

theorem Alike.join (alike : registry.Alike later) (roomName name : String) (remote : Address) (now : Nat)
    (draw : Draw) :
    (later.join roomName name remote now draw).1 = (registry.join roomName name remote now draw).1 ∧
      (later.join roomName name remote now draw).2.persons =
        (registry.join roomName name remote now draw).2.persons := by
  obtain ⟨num, entered⟩ := alike.lobby.enter roomName draw.bag
  have acted : ((later.lobby.enter roomName draw.bag).2.act (registry.lobby.enter roomName draw.bag).1
      (.join name)).1 = ((registry.lobby.enter roomName draw.bag).2.act
        (registry.lobby.enter roomName draw.bag).1 (.join name)).1 := by
    rw [Lobby.act, Lobby.act]
    rcases entered.room? (registry.lobby.enter roomName draw.bag).1 with
      ⟨here, there⟩ | ⟨room, other, here, there, same⟩
    · rw [here, there]
    · rw [here, there]
      simp only [Room.act, same.conversation]
  have fresh : later.freshId? draw.ids = registry.freshId? draw.ids := by
    rw [freshId?, freshId?, alike.persons]
  unfold Registry.join
  simp only [num, fresh]
  generalize (later.lobby.enter roomName draw.bag).2.act _ _ = second at acted ⊢
  generalize (registry.lobby.enter roomName draw.bag).2.act _ _ = first at acted ⊢
  obtain ⟨joined, one⟩ := first
  obtain ⟨outcome, other⟩ := second
  obtain rfl : outcome = joined := acted
  cases registry.freshId? draw.ids with
  | none => exact ⟨rfl, alike.persons⟩
  | some id =>
    rcases outcome with _ | ⟨_ | _ | _ | player, after, notices⟩
    case some.some.number.some =>
      refine ⟨rfl, ?_⟩
      change later.persons.put id _ = registry.persons.put id _
      rw [alike.persons]
    all_goals exact ⟨rfl, alike.persons⟩

theorem read_persons (registry : Registry) (response : Response) (size : Nat) :
    (registry.read response size).2.2.persons = registry.persons := by
  cases response with
  | reply => rfl
  | stream =>
    unfold Registry.read
    simp only
    split <;> rfl

theorem takeNotice_persons (registry : Registry) (response : Response) :
    (Link.takeNotice registry response).persons = registry.persons := by
  cases response with
  | reply => rfl
  | stream =>
    unfold Link.takeNotice
    simp only
    split <;> rfl

theorem actAll_persons (rooms : List RoomNum) (action : Action) (registry : Registry) :
    (rooms.foldl (fun registry num => registry.act num action) registry).persons = registry.persons := by
  induction rooms generalizing registry with
  | nil => rfl
  | cons num rest ih => exact ih (registry.act num action)

section

variable (same : later.persons = registry.persons)

include same

theorem persons_remove (id : PersonId) : (later.remove id).1 = (registry.remove id).1 ∧
    (later.remove id).2.persons = (registry.remove id).2.persons := by
  rw [remove, remove, person?, person?, same]
  cases registry.persons.find? id with
  | none => exact ⟨rfl, same⟩
  | some person => exact ⟨rfl, rfl⟩

theorem persons_close (routed : Routed) (now : Nat) :
    (later.close routed now).persons = (registry.close routed now).persons := by
  obtain ⟨response, watching⟩ := routed
  have kept (registry : Registry) := (close_unwatched registry response now).2
  cases watching with
  | none => exact (kept later).trans (same.trans (kept registry).symm)
  | some id =>
    have left : (later.detach id now).persons = (registry.detach id now).persons := by
      rw [detach, detach, same]
    exact (kept (later.detach id now)).trans (left.trans (kept (registry.detach id now)).symm)

theorem persons_removeAll (ids : List PersonId) :
    (later.removeAll ids).persons = (registry.removeAll ids).persons := by
  induction ids generalizing registry later with
  | nil => exact same
  | cons id rest ih => exact ih (persons_remove same id).2

theorem persons_perform (request : Request) (id : PersonId) (keyHash : Option Key.Hash) (now : Nat) :
    (later.perform request id keyHash now).2.persons = (registry.perform request id keyHash now).2.persons := by
  have after (registry : Registry) : (registry.perform request id keyHash now).2.persons =
      registry.persons.update id fun person => { person with lastSeen := now } := by
    unfold perform touch
    simp only
    split
    next found => exact (congrArg (fun pair => pair.2.persons) found).symm
    next found =>
      simp only
      split
      next => exact (congrArg (fun pair => pair.2.persons) found).symm
      next => exact (congrArg (fun pair => pair.2.persons) found).symm
  rw [after, after, same]

theorem removeMoves_same (ids : List PersonId) : later.removeMoves ids = registry.removeMoves ids := by
  induction ids generalizing registry later with
  | nil => rfl
  | cons id rest ih =>
    rw [removeMoves, removeMoves, ih (persons_remove same id).2, person?, person?, same]

theorem persons_attach (id : PersonId) (now : Nat) :
    (later.attach id now).2.persons = (registry.attach id now).2.persons := by
  rw [attach, attach, same]

end

theorem Alike.persons_answer (alike : registry.Alike later) (request : Request) (keyHash : Option Key.Hash)
    (remote : Address) (now : Nat) (draw : Draw) :
    (later.answer request keyHash remote now draw).2.persons =
      (registry.answer request keyHash remote now draw).2.persons := by
  have watched (registry : Registry) (person : Person) (lastMessage : Nat) :=
    (same_watch registry person lastMessage keyHash).2
  cases request with
  | newPerson roomName name =>
    obtain ⟨joined, persons⟩ := alike.join roomName name remote now draw
    unfold answer
    simp only
    generalize later.join roomName name remote now draw = second at joined persons ⊢
    generalize registry.join roomName name remote now draw = first at joined persons ⊢
    obtain ⟨made, one⟩ := first
    obtain ⟨twin, other⟩ := second
    obtain rfl : made = twin := joined.symm
    cases made with
    | none => exact persons
    | some person => exact (watched _ _ 0).trans ((persons_attach persons _ _).trans (watched _ _ 0).symm)
  | watchPerson id lastMessage =>
    have attached := persons_attach alike.persons id now
    have known : (later.attach id now).2.person? id = (registry.attach id now).2.person? id := by
      rw [person?, attached, person?]
    unfold answer
    simp only [known]
    cases (registry.attach id now).2.person? id with
    | none => exact attached
    | some person => exact (watched _ _ lastMessage).trans (attached.trans (watched _ _ lastMessage).symm)
  | leave id =>
    obtain ⟨found, persons⟩ := persons_remove alike.persons id
    unfold answer
    simp only
    generalize later.remove id = second at found persons ⊢
    generalize registry.remove id = first at found persons ⊢
    obtain ⟨there, one⟩ := first
    obtain ⟨twin, other⟩ := second
    obtain rfl : there = twin := found.symm
    cases there <;> exact persons
  | sendMessage | startTyping | stopTyping | keepAlive | shout | turn | moveTile =>
    exact persons_perform alike.persons _ _ keyHash now

/-- A step is the same moves and makes the same of the persons, whoever has a notice. -/
theorem Alike.persons_serve (alike : registry.Alike later) (step : ServerStep) :
    later.moves step = registry.moves step ∧ (later.serve step).persons = (registry.serve step).persons := by
  cases step with
  | route target keyHash remote now draw =>
    cases parsed : Request.parse target with
    | error cause =>
      obtain ⟨first, none⟩ := registry.serve_no_request parsed keyHash remote now draw
      obtain ⟨second, nothing⟩ := later.serve_no_request parsed keyHash remote now draw
      rw [first, none, second, nothing]
      exact ⟨rfl, alike.persons⟩
    | ok request =>
      rw [moves_request parsed, moves_request parsed, serve_request parsed, serve_request parsed]
      refine ⟨?_, alike.persons_answer request keyHash remote now draw⟩
      have sender : later.sender? request = registry.sender? request := by
        have known : later.person? = registry.person? := funext fun id => by rw [person?, person?, alike.persons]
        rw [sender?, sender?, known]
      cases request with
      | newPerson roomName name =>
        simp only [answerMoves, (alike.join roomName name remote now draw).1]
      | watchPerson | leave | sendMessage | startTyping | stopTyping | keepAlive | shout | turn | moveTile =>
        simp only [answerMoves, sender]
  | read response size =>
    refine ⟨rfl, ?_⟩
    exact (later.read_persons response size).trans (alike.persons.trans (registry.read_persons response size).symm)
  | takeNotice response =>
    refine ⟨rfl, ?_⟩
    exact (later.takeNotice_persons response).trans (alike.persons.trans (registry.takeNotice_persons response).symm)
  | close routed now => exact ⟨rfl, persons_close alike.persons routed now⟩
  | check personTimeout shoutDuration now =>
    have silent : later.timedOut personTimeout now = registry.timedOut personTimeout now := by
      rw [timedOut, timedOut, alike.persons]
    have removed := persons_removeAll alike.persons (registry.timedOut personTimeout now)
    constructor
    · simp only [moves, silent, removeMoves_same alike.persons, activeRooms, removed]
    · unfold serve checkTimeouts expirePersons
      rw [actAll_persons, actAll_persons]
      simp only [silent]
      exact removed

theorem Alike.serve (alike : registry.Alike later) (step : ServerStep) :
    (registry.serve step).Alike (later.serve step) := by
  obtain ⟨moves, persons⟩ := alike.persons_serve step
  refine ⟨persons, ?_⟩
  rw [serve_lobby, serve_lobby, moves]
  exact alike.lobby.moveAll _

theorem Alike.read (alike : registry.Alike later) (response : Response) (size : Nat) :
    (later.read response size).1 = (registry.read response size).1 ∧
      (later.read response size).2.1 = (registry.read response size).2.1 := by
  cases response with
  | reply => exact ⟨rfl, rfl⟩
  | stream num watch =>
    unfold Registry.read
    rcases alike.lobby.room? num with ⟨here, there⟩ | ⟨room, other, here, there, same⟩
    · simp only [here, there, and_self]
    · simp only [here, there, (same.read watch size).1, and_self]

theorem Alike.isFinished (alike : registry.Alike later) (response : Response) :
    later.isFinished response = registry.isFinished response := by
  cases response with
  | reply => rfl
  | stream num watch =>
    simp only [Registry.isFinished, Registry.stream?]
    rcases alike.lobby.room? num with ⟨here, there⟩ | ⟨room, other, here, there, same⟩
    · rw [here, there]
    · rw [here, there, Option.bind_some, Option.bind_some]
      rcases same.stream? watch with ⟨here, there⟩ | ⟨one, other, here, there, same⟩
      · rw [here, there]
      · rw [here, there]
        exact congrArg (fun stream => decide (stream.phase = .done)) same

end Registry

end TileRoom
