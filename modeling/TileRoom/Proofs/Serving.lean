import TileRoom.Proofs.Wiring
import TileRoom.Server.Router

/-! What a server does to its rooms and persons. Whoever is served, every person stays the
player they were, and every room changes by at most one operation, of which all its
streams take notice. -/

namespace TileRoom

namespace Lobby

theorem room?_setRoom (lobby : Lobby) (num other : RoomNum) (room : Room) :
    (lobby.setRoom num room).room? other =
      if num = other then (lobby.room? other).map fun _ => room else lobby.room? other := by
  rw [room?, setRoom, List.getElem?_set]
  split
  · rename_i same
    subst same
    rw [room?]
    split
    · rename_i inside
      rw [List.getElem?_eq_getElem inside]
      rfl
    · rename_i outside
      rw [List.getElem?_eq_none (Nat.le_of_not_lt outside)]
      rfl
  · rfl

theorem conversation_setRoom {lobby : Lobby} {num : RoomNum} {room : Room}
    (there : lobby.room? num = some room) (later : Room) (quiet : later.conversation = room.conversation)
    (other : RoomNum) :
    ((lobby.setRoom num later).room? other).map (·.conversation) =
      (lobby.room? other).map (·.conversation) := by
  rw [room?_setRoom]
  split
  next here => rw [← here, there, Option.map_some, Option.map_some, Option.map_some, quiet]
  next => rfl

end Lobby

namespace Registry

structure Sound (registry : Registry) : Prop where
  rooms : ∀ num room, registry.lobby.room? num = some room → room.Wired ∧ room.conversation.Consistent
  letters : ∀ num room, registry.lobby.room? num = some room → room.conversation.letters = tileCount
  persons : ∀ id person, registry.person? id = some person → person.id = id ∧
    ∃ room, registry.lobby.room? person.room = some room ∧ person.player < room.conversation.players.length

/-- What may become of the rooms and persons of a server. -/
structure Leads (kept : RoomNum → WatchId → Prop) (before after : Registry) : Prop where
  rooms : ∀ num room, before.lobby.room? num = some room →
    ∃ later, after.lobby.room? num = some later ∧ room.Turns (kept num) later
  persons : ∀ id person, before.person? id = some person →
    ∃ later, after.person? id = some later ∧ later.room = person.room ∧ later.player = person.player

variable {registry before middle after : Registry} {kept : RoomNum → WatchId → Prop}

theorem sound_empty : ({} : Registry).Sound where
  rooms _ _ none := by cases none
  letters _ _ none := by cases none
  persons _ _ none := by cases none

theorem leads_same (sound : registry.Sound) : registry.Leads kept registry :=
  ⟨fun num room found => ⟨room, found, Room.turns_same (sound.rooms num room found).1
    (sound.rooms num room found).2⟩, fun _ person found => ⟨person, found, rfl, rfl⟩⟩

theorem Leads.setRoom (leads : before.Leads kept middle) {num : RoomNum} {later : Room}
    (turns : ∀ room, before.lobby.room? num = some room → room.Turns (kept num) later) :
    before.Leads kept { middle with lobby := middle.lobby.setRoom num later } := by
  refine ⟨?_, leads.persons⟩
  intro other room found
  obtain ⟨next, there, turned⟩ := leads.rooms other room found
  simp only
  rw [Lobby.room?_setRoom]
  by_cases here : num = other
  · subst here
    rw [if_pos rfl, there]
    exact ⟨later, rfl, turns room found⟩
  · rw [if_neg here]
    exact ⟨next, there, turned⟩

theorem Sound.setRoom (sound : registry.Sound) {num : RoomNum} {room later : Room}
    {noticed : WatchId → Prop} (found : registry.lobby.room? num = some room) (turns : room.Turns noticed later) :
    Registry.Sound { registry with lobby := registry.lobby.setRoom num later } := by
  refine ⟨?_, ?_, ?_⟩
  · intro other next there
    simp only at there
    rw [Lobby.room?_setRoom] at there
    split at there
    · obtain ⟨_, _, rfl⟩ := Option.map_eq_some_iff.1 there
      exact ⟨turns.wired, turns.consistent⟩
    · exact sound.rooms other next there
  · intro other next there
    simp only at there
    rw [Lobby.room?_setRoom] at there
    split at there
    · obtain ⟨_, _, rfl⟩ := Option.map_eq_some_iff.1 there
      exact turns.letters.trans (sound.letters num room found)
    · exact sound.letters other next there
  · intro id person known
    obtain ⟨same, home, there, inside⟩ := sound.persons id person known
    refine ⟨same, ?_⟩
    simp only
    rw [Lobby.room?_setRoom]
    by_cases here : num = person.room
    · rw [if_pos here, there]
      rw [← here, found] at there
      obtain rfl := Option.some.inj there
      obtain ⟨changes, altered, _⟩ := turns.altered
      exact ⟨later, rfl, Nat.lt_of_lt_of_le inside altered.players_le⟩
    · rw [if_neg here]
      exact ⟨home, there, inside⟩

theorem Sound.updatePersons (sound : registry.Sound) (id : PersonId) (f : Person → Person)
    (same : ∀ person, (f person).id = person.id ∧ (f person).room = person.room ∧
      (f person).player = person.player) :
    Registry.Sound { registry with persons := registry.persons.update id f } := by
  refine ⟨sound.rooms, sound.letters, ?_⟩
  intro other person known
  simp only [person?] at known
  rw [Table.find?_update] at known
  split at known
  · obtain ⟨old, found, rfl⟩ := Option.map_eq_some_iff.1 known
    obtain ⟨idSame, roomSame, playerSame⟩ := same old
    rw [idSame, roomSame, playerSame]
    exact sound.persons other old found
  · exact sound.persons other person known

theorem Leads.updatePersons (leads : before.Leads kept middle) (id : PersonId) (f : Person → Person)
    (same : ∀ person, (f person).room = person.room ∧ (f person).player = person.player) :
    before.Leads kept { middle with persons := middle.persons.update id f } := by
  refine ⟨leads.rooms, ?_⟩
  intro other person known
  obtain ⟨later, there, room, player⟩ := leads.persons other person known
  simp only [person?]
  rw [Table.find?_update]
  split
  · rw [show middle.persons.find? other = some later from there, Option.map_some]
    exact ⟨_, rfl, (same later).1.trans room, (same later).2.trans player⟩
  · exact ⟨later, there, room, player⟩

theorem Leads.weaken {fewer : RoomNum → WatchId → Prop} (leads : before.Leads kept after)
    (less : ∀ num watch, fewer num watch → kept num watch) : before.Leads fewer after := by
  refine ⟨?_, leads.persons⟩
  intro num room found
  obtain ⟨later, there, turns⟩ := leads.rooms num room found
  obtain ⟨changes, altered, streams⟩ := turns.altered
  exact ⟨later, there, turns.wired, turns.consistent, turns.letters, turns.given, changes, altered,
    fun watch stream keeps => streams watch stream (less num watch keeps)⟩

theorem Leads.of_same (leads : middle.Leads kept after)
    (rooms : ∀ num room, before.lobby.room? num = some room → middle.lobby.room? num = some room)
    (persons : ∀ id person, before.person? id = some person → ∃ later, middle.person? id = some later ∧
      later.room = person.room ∧ later.player = person.player) : before.Leads kept after := by
  refine ⟨fun num room found => leads.rooms num room (rooms num room found), ?_⟩
  intro id person found
  obtain ⟨next, there, room, player⟩ := persons id person found
  obtain ⟨later, here, same, still⟩ := leads.persons id next there
  exact ⟨later, here, same.trans room, still.trans player⟩

theorem sound_act (sound : registry.Sound) (num : RoomNum) (action : Action) :
    (registry.act num action).Sound := by
  unfold Registry.act Lobby.act
  cases found : registry.lobby.room? num with
  | none => exact sound
  | some room =>
    obtain ⟨wired, consistent⟩ := sound.rooms num room found
    have turns : room.Turns (fun _ => True) (room.act action).2 := Room.turns_act wired consistent action
    exact sound.setRoom found turns

theorem leads_act (sound : registry.Sound) (num : RoomNum) (action : Action) :
    registry.Leads kept (registry.act num action) := by
  unfold Registry.act Lobby.act
  cases found : registry.lobby.room? num with
  | none => exact leads_same sound
  | some room =>
    apply (leads_same sound).setRoom
    intro other there
    obtain rfl := Option.some.inj (found.symm.trans there)
    exact Room.turns_act (sound.rooms num room found).1 (sound.rooms num room found).2 action

theorem room?_act (registry : Registry) (num : RoomNum) (action : Action) {room : Room}
    (found : registry.lobby.room? num = some room) :
    (registry.act num action).lobby.room? num = some (room.act action).2 := by
  unfold Registry.act Lobby.act
  rw [found]
  simp only
  rw [Lobby.room?_setRoom, if_pos rfl, found]
  rfl

theorem enter_spec (lobby : Lobby) (name : String) (bag : List Char) :
    (∀ num room, lobby.room? num = some room → (lobby.enter name bag).2.room? num = some room) ∧
      ∀ num room, (lobby.enter name bag).2.room? num = some room →
        lobby.room? num = some room ∨ room = .ofBag bag := by
  unfold Lobby.enter
  split
  · exact ⟨fun _ _ found => found, fun _ _ found => Or.inl found⟩
  · constructor
    · intro num room found
      have inside := (List.getElem?_eq_some_iff.1 found).1
      exact (List.getElem?_append_left inside).trans found
    · intro num room found
      simp only [Lobby.room?] at found ⊢
      rcases Nat.lt_or_ge num lobby.rooms.length with old | new
      · rw [List.getElem?_append_left old] at found
        exact Or.inl found
      · have inside := (List.getElem?_eq_some_iff.1 found).1
        rw [List.length_append, List.length_singleton] at inside
        obtain rfl : num = lobby.rooms.length := Nat.le_antisymm (Nat.le_of_lt_succ inside) new
        rw [List.getElem?_concat_length] at found
        exact Or.inr (Option.some.inj found).symm

theorem lt_of_join {room : Conversation} {name : String} {player : Nat}
    (joined : (room.act (.join name)).answer = .number (some player)) :
    player < (room.act (.join name)).after.players.length := by
  change Answer.number (room.join name).answer = _ at joined
  change _ < (room.join name).after.players.length
  have answer := Answer.number.inj joined
  unfold Conversation.join at answer ⊢
  split at answer
  · rename_i free
    rw [if_pos free]
    simp only at answer ⊢
    split at answer
    · rename_i full
      rw [if_pos full, Conversation.start_eq]
      obtain rfl := Option.some.inj answer
      simp
    · rename_i more
      rw [if_neg more]
      obtain rfl := Option.some.inj answer
      simp
  · cases answer

theorem Lobby.act_some {lobby later : Lobby} {num : RoomNum} {action : Action} {outcome : Outcome Answer}
    (acted : lobby.act num action = (some outcome, later)) :
    ∃ room, lobby.room? num = some room ∧ outcome = room.conversation.act action ∧
      later = lobby.setRoom num (room.act action).2 := by
  unfold Lobby.act at acted
  split at acted
  · cases acted
  · rename_i room found
    obtain ⟨one, rfl⟩ := Prod.mk.inj acted
    exact ⟨room, found, (Option.some.inj one).symm, rfl⟩

theorem Sound.enroll (sound : registry.Sound) (person : Person) {room : Room}
    (there : registry.lobby.room? person.room = some room)
    (inside : person.player < room.conversation.players.length) :
    Sound ⟨registry.lobby.prune, registry.persons.put person.id person⟩ := by
  refine ⟨sound.rooms, sound.letters, ?_⟩
  intro id other known
  have found := (Table.find?_put registry.persons person.id id person).symm.trans known
  split at found
  · rename_i same
    obtain rfl := Option.some.inj found
    exact ⟨same, room, there, inside⟩
  · exact sound.persons id other found

theorem Leads.enroll (leads : before.Leads kept middle) (person : Person)
    (fresh : middle.person? person.id = none) :
    before.Leads kept ⟨middle.lobby.prune, middle.persons.put person.id person⟩ := by
  refine ⟨leads.rooms, ?_⟩
  intro id other known
  obtain ⟨later, there, same⟩ := leads.persons id other known
  refine ⟨later, (Table.find?_put middle.persons person.id id person).trans ?_, same⟩
  rw [if_neg fun here => by rw [here, there] at fresh; cases fresh]
  exact there

theorem join_spec (kept : RoomNum → WatchId → Prop) (sound : registry.Sound) (roomName name : String)
    (remote : Address) (now : Nat) (draw : Draw) (full : draw.bag.length = tileCount) :
    registry.join roomName name remote now draw = (none, registry) ∨
      ∃ person later, registry.join roomName name remote now draw = (some person, later) ∧ later.Sound ∧
        registry.Leads kept later ∧ later.person? person.id = some person := by
  obtain ⟨kept', grown⟩ := enter_spec registry.lobby roomName draw.bag
  have entered : Registry.Sound { registry with lobby := (registry.lobby.enter roomName draw.bag).2 } := by
    refine ⟨?_, ?_, ?_⟩
    · intro num room found
      rcases grown num room found with old | rfl
      · exact sound.rooms num room old
      · exact ⟨Room.wired_ofConversation _, Conversation.consistent_ofBag _⟩
    · intro num room found
      rcases grown num room found with old | rfl
      · exact sound.letters num room old
      · exact (Conversation.letters_ofBag _).trans full
    · intro id person found
      obtain ⟨same, room, there, inside⟩ := sound.persons id person found
      exact ⟨same, room, kept' _ _ there, inside⟩
  unfold join
  dsimp only
  split
  · rename_i id player after notices lobby fresh joined
    have unknown : registry.person? id = none := by
      have free := List.find?_some fresh
      rwa [Table.contains, Bool.not_eq_true', Option.isSome_eq_false_iff, Option.isNone_iff_eq_none] at free
    obtain ⟨room, there, outcome, rfl⟩ := Lobby.act_some joined
    have acted := sound_act entered (registry.lobby.enter roomName draw.bag).1 (.join name)
    have acts : Registry.Leads kept { registry with lobby := (registry.lobby.enter roomName draw.bag).2 } _ :=
      leads_act entered (registry.lobby.enter roomName draw.bag).1 (.join name)
    have leads := acts.of_same kept' fun _ person found => ⟨person, found, rfl, rfl⟩
    have home := room?_act { registry with lobby := (registry.lobby.enter roomName draw.bag).2 }
      (registry.lobby.enter roomName draw.bag).1 (.join name) there
    have inside : player < (room.act (.join name)).2.conversation.players.length := by
      rw [Room.conversation_act]
      exact lt_of_join (congrArg Outcome.answer outcome.symm)
    have same : (registry.lobby.enter roomName draw.bag).2.setRoom (registry.lobby.enter roomName draw.bag).1
        (room.act (.join name)).2 =
          (Registry.act { registry with lobby := (registry.lobby.enter roomName draw.bag).2 }
            (registry.lobby.enter roomName draw.bag).1 (.join name)).lobby := by
      rw [Registry.act, Lobby.act, there]
    rw [same]
    refine Or.inr ⟨_, _, rfl, acted.enroll ⟨id, _, player, remote, now, 0⟩ home inside,
      leads.enroll ⟨id, _, player, remote, now, 0⟩ unknown, ?_⟩
    exact (Table.find?_put _ _ _ _).trans (if_pos rfl)
  · exact Or.inl rfl

/-- A stream that was opened for a person, one of the players of a room. Its id was not in
use before. -/
structure Granted (before after : Registry) (routed : Routed) (lastMessage : Nat) (keyHash : Option Key.Hash)
    (person : Person) (room : Room) : Prop where
  fresh : ∀ earlier, before.lobby.room? person.room = some earlier → earlier.nextWatch ≤ room.nextWatch
  known : after.person? person.id = some person
  response : routed.response = .stream person.room room.nextWatch
  wired : room.Wired
  consistent : room.conversation.Consistent
  inside : person.player < room.conversation.players.length
  there : after.lobby.room? person.room =
    some (room.watch person.id person.player lastMessage keyHash).2

theorem watch_spec (fine : before.Sound) (leads : before.Leads kept registry) (sound : registry.Sound)
    (person : Person) {found : Person} (known : registry.person? person.id = some found)
    (same : found.room = person.room ∧ found.player = person.player)
    (lastMessage : Nat) (keyHash : Option Key.Hash) :
    (∃ room, Granted before (registry.watch person lastMessage keyHash).2
      (registry.watch person lastMessage keyHash).1 lastMessage keyHash found room) ∧
      (registry.watch person lastMessage keyHash).2.Sound ∧
      before.Leads kept (registry.watch person lastMessage keyHash).2 := by
  obtain ⟨ids, room, there, inside⟩ := sound.persons person.id found known
  rw [same.1] at there
  obtain ⟨wired, consistent⟩ := sound.rooms person.room room there
  unfold watch
  rw [there]
  refine ⟨⟨room, ?_, ids ▸ known, ?_, wired, consistent, inside, ?_⟩, ?_, ?_⟩
  · intro earlier was
    rw [same.1] at was
    obtain ⟨later, here, turns⟩ := leads.rooms person.room earlier was
    obtain rfl := Option.some.inj (there.symm.trans here)
    exact turns.given
  · rw [same.1]
    rfl
  · rw [ids, same.1, same.2]
    simp only
    rw [Lobby.room?_setRoom, if_pos rfl, there]
    rfl
  · have same : room.Turns (fun _ => True) room := Room.turns_same wired consistent
    exact sound.setRoom there (same.watch wired _ _ _ _)
  · apply leads.setRoom
    intro earlier was
    obtain ⟨later, here, turns⟩ := leads.rooms person.room earlier was
    obtain rfl := Option.some.inj (there.symm.trans here)
    exact turns.watch (fine.rooms person.room earlier was).1 _ _ _ _

theorem person?_update (registry : Registry) (id other : PersonId) (f : Person → Person) :
    Registry.person? { registry with persons := registry.persons.update id f } other =
      if id = other then (registry.person? other).map f else registry.person? other :=
  Table.find?_update registry.persons id other f

theorem person?_attach (registry : Registry) (id other : PersonId) (now : Nat) :
    (registry.attach id now).2.person? other =
      if id = other then (registry.person? other).map fun person =>
        { person with watchers := person.watchers + 1, lastSeen := now }
      else registry.person? other :=
  person?_update registry id other _

theorem attach_spec (leads : before.Leads kept registry) (sound : registry.Sound) (id : PersonId) (now : Nat) :
    (registry.attach id now).2.Sound ∧ before.Leads kept (registry.attach id now).2 :=
  ⟨sound.updatePersons id _ fun _ => ⟨rfl, rfl, rfl⟩, leads.updatePersons id _ fun _ => ⟨rfl, rfl⟩⟩

theorem answer_newPerson (kept : RoomNum → WatchId → Prop) (sound : registry.Sound) (roomName name : String)
    (keyHash : Option Key.Hash) (remote : Address) (now : Nat) (draw : Draw) (full : draw.bag.length = tileCount) :
    let served := registry.answer (.newPerson roomName name) keyHash remote now draw
    (served.1.response = .reply (.notFound keyHash) ∨
      ∃ person room, Granted registry served.2 served.1 0 keyHash person room) ∧
    served.2.Sound ∧ registry.Leads kept served.2 := by
  unfold answer
  rcases join_spec kept sound roomName name remote now draw full with
    none | ⟨person, later, made, fine, leads, known⟩
  · simp only [none]
    exact ⟨Or.inl rfl, sound, leads_same sound⟩
  · simp only [made]
    obtain ⟨attached, counted⟩ := attach_spec leads fine person.id now
    obtain ⟨⟨room, granted⟩, last, still⟩ := watch_spec sound counted attached _
      ((person?_attach later person.id person.id now).trans ((if_pos rfl).trans (congrArg _ known)))
      ⟨rfl, rfl⟩ 0 keyHash
    exact ⟨Or.inr ⟨_, room, granted⟩, last, still⟩

theorem answer_first (roomName name : String) (keyHash : Option Key.Hash) (remote : Address) (now : Nat)
    (id : PersonId) (bag : List Char) :
    let served := ({} : Registry).answer (.newPerson roomName name) keyHash remote now ⟨[id], bag⟩
    served.1.response = .stream 0 0 ∧ (served.2.lobby.room? 0).map (·.conversation) =
      some ((Conversation.ofBag bag).act (.join name)).after :=
  ⟨rfl, rfl⟩

theorem answer_watchPerson (kept : RoomNum → WatchId → Prop) (sound : registry.Sound) (id : PersonId) (lastMessage : Nat)
    (keyHash : Option Key.Hash) (remote : Address) (now : Nat) (draw : Draw) :
    let served := registry.answer (.watchPerson id lastMessage) keyHash remote now draw
    (registry.person? id = none ∧ served.1.response = .reply (.notFound keyHash) ∨
      ∃ person room, person.id = id ∧ Granted registry served.2 served.1 lastMessage keyHash person room) ∧
    served.2.Sound ∧ registry.Leads kept served.2 := by
  have same : registry.Leads kept registry := leads_same sound
  obtain ⟨attached, counted⟩ := attach_spec same sound id now
  have counts := (person?_attach registry id id now).trans (if_pos rfl)
  unfold answer
  simp only
  cases known : registry.person? id with
  | none =>
    rw [known, Option.map_none] at counts
    simp only [counts]
    exact ⟨Or.inl ⟨trivial, rfl⟩, attached, counted⟩
  | some person =>
    rw [known, Option.map_some] at counts
    simp only [counts]
    have ids := (sound.persons id person known).1
    obtain ⟨⟨room, granted⟩, last, still⟩ := watch_spec sound counted attached
      { person with watchers := person.watchers + 1, lastSeen := now } (ids ▸ counts) ⟨rfl, rfl⟩ lastMessage
      keyHash
    refine ⟨Or.inr ⟨{ person with watchers := person.watchers + 1, lastSeen := now }, room, ids, granted⟩,
      last, still⟩

theorem perform_spec (sound : registry.Sound) (request : Request) (id : PersonId)
    (keyHash : Option Key.Hash) (now : Nat) :
    (registry.perform request id keyHash now).2.Sound ∧
      registry.Leads kept (registry.perform request id keyHash now).2 := by
  have touched : (registry.touch id now).2.Sound := sound.updatePersons id _ fun _ => ⟨rfl, rfl, rfl⟩
  have leads : registry.Leads kept (registry.touch id now).2 :=
    (leads_same sound).updatePersons id _ fun _ => ⟨rfl, rfl⟩
  unfold perform
  split
  · rename_i later served
    rw [served] at touched leads
    exact ⟨touched, leads⟩
  · rename_i person later served
    rw [served] at touched leads
    dsimp only
    split
    · have rooms : later.lobby = registry.lobby := (congrArg (·.2.lobby) served).symm
      exact ⟨sound_act touched _ _, (leads_act touched _ _).of_same
        (fun num room found => rooms ▸ found) leads.persons⟩
    · exact ⟨touched, leads⟩

theorem answer_spec (sound : registry.Sound) (request : Request) (stays : ∀ id, request ≠ .leave id)
    (keyHash : Option Key.Hash) (remote : Address) (now : Nat) (draw : Draw)
    (full : draw.bag.length = tileCount) :
    (registry.answer request keyHash remote now draw).2.Sound ∧
      registry.Leads kept (registry.answer request keyHash remote now draw).2 := by
  cases request with
  | newPerson roomName name => exact (answer_newPerson kept sound roomName name keyHash remote now draw full).2
  | watchPerson id lastMessage => exact (answer_watchPerson kept sound id lastMessage keyHash remote now draw).2
  | leave id => exact absurd rfl (stays id)
  | sendMessage | startTyping | stopTyping | keepAlive | shout | turn | moveTile =>
    exact perform_spec sound _ _ keyHash now

theorem close_spec (sound : registry.Sound) (routed : Routed) (now : Nat)
    (apart : ∀ num watch, kept num watch → routed.response ≠ .stream num watch) :
    (registry.close routed now).Sound ∧ registry.Leads kept (registry.close routed now) := by
  have detached (id : PersonId) : (registry.detach id now).Sound ∧ registry.Leads kept (registry.detach id now) :=
    ⟨sound.updatePersons id _ fun _ => ⟨rfl, rfl, rfl⟩,
      (leads_same sound).updatePersons id _ fun _ => ⟨rfl, rfl⟩⟩
  have ended (middle : Registry) (fine : middle.Sound) (leads : registry.Leads kept middle) (num : RoomNum)
      (watch : WatchId) (stream : routed.response = .stream num watch) {room : Room}
      (there : middle.lobby.room? num = some room) :
      Registry.Sound { middle with lobby := middle.lobby.setRoom num (room.unwatch watch).2 } ∧
        registry.Leads kept { middle with lobby := middle.lobby.setRoom num (room.unwatch watch).2 } := by
    obtain ⟨wired, consistent⟩ := fine.rooms num room there
    have turns : room.Turns (fun _ => False) (room.unwatch watch).2 :=
      (Room.turns_same wired consistent).unwatch watch fun _ never => never.elim
    refine ⟨fine.setRoom there turns, leads.setRoom fun earlier was => ?_⟩
    obtain ⟨later, here, turns⟩ := leads.rooms num earlier was
    obtain rfl := Option.some.inj (there.symm.trans here)
    exact turns.unwatch watch fun other keeps same => apart num other keeps (same ▸ stream)
  unfold close
  cases routed.watching with
  | none =>
    dsimp only
    split
    · exact ⟨sound, leads_same sound⟩
    · split
      · exact ⟨sound, leads_same sound⟩
      · exact ended registry sound (leads_same sound) _ _ ‹_› ‹_›
  | some id =>
    dsimp only
    split
    · exact detached id
    · split
      · exact detached id
      · exact ended _ (detached id).1 (detached id).2 _ _ ‹_› ‹_›

theorem stream_read (registry : Registry) (num : RoomNum) (watch : WatchId) (size : Nat) :
    (registry.read (.stream num watch) size).2.1 = .stream num watch := by
  unfold Registry.read
  simp only
  split <;> rfl

theorem read_spec (sound : registry.Sound) (response : Response) (size : Nat)
    (apart : ∀ num watch, kept num watch → response ≠ .stream num watch) :
    (registry.read response size).2.2.Sound ∧ registry.Leads kept (registry.read response size).2.2 := by
  cases response with
  | reply reply => exact ⟨sound, leads_same sound⟩
  | stream num watch =>
    unfold Registry.read
    dsimp only
    split
    · exact ⟨sound, leads_same sound⟩
    · rename_i room there
      obtain ⟨wired, consistent⟩ := sound.rooms num room there
      have turns := Room.turns_read wired consistent watch size fun other keeps same =>
        apart num other keeps (same ▸ rfl)
      refine ⟨sound.setRoom there turns, (leads_same sound).setRoom fun earlier was => ?_⟩
      obtain rfl := Option.some.inj (there.symm.trans was)
      exact turns

end Registry

end TileRoom
