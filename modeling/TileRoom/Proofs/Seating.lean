import TileRoom.Proofs.Presence
import TileRoom.Proofs.Serving

/-! Persons and the players they are. Every person is one connected player of one room,
and every connected player of any room is one person. Both end together, when the person
is removed or was silent too long. -/

namespace TileRoom

theorem Table.find?_erase {key value : Type} [DecidableEq key] (table : Table key value)
    (unwanted wanted : key) :
    (table.erase unwanted).find? wanted =
      if unwanted = wanted then none else table.find? wanted := by
  rw [erase, find?_keep]
  by_cases same : unwanted = wanted
  · rw [if_pos same]
    cases table.find? wanted <;> simp [same]
  · rw [if_neg same]
    cases table.find? wanted <;> simp [Ne.symm same]

abbrev Seat := RoomNum × Nat

def Person.seat (person : Person) : Seat :=
  (person.room, person.player)

namespace Registry

def seat? (registry : Registry) (id : PersonId) : Option Seat :=
  (registry.person? id).map (·.seat)

def conversation? (registry : Registry) (num : RoomNum) : Option Conversation :=
  (registry.lobby.room? num).map (·.conversation)

def isConnected (registry : Registry) (seat : Seat) : Bool :=
  (registry.conversation? seat.1).any (·.isConnected seat.2)

def headcount (registry : Registry) (num : RoomNum) : Nat :=
  (registry.conversation? num).elim 0 (·.players.length)

def Named (registry : Registry) : Prop :=
  ∀ id person, registry.person? id = some person → person.id = id

variable {before middle after registry : Registry} {seat : Seat} {id : PersonId}

theorem lt_of_isConnected (connected : registry.isConnected seat = true) :
    seat.2 < registry.headcount seat.1 := by
  unfold isConnected at connected
  unfold headcount
  cases found : registry.conversation? seat.1 with
  | none => rw [found] at connected; cases connected
  | some room =>
    rw [found] at connected
    exact Conversation.lt_of_isConnected connected

/-- Persons and connected players are the same. -/
structure Seated (registry : Registry) : Prop where
  named : registry.Named
  apart : ∀ {id other seat}, registry.seat? id = some seat → registry.seat? other = some seat →
    id = other
  filled : ∀ seat, registry.isConnected seat = true ↔ ∃ id, registry.seat? id = some seat

/-- Time passes: rooms fill up, and who has left does not come back. -/
structure Onward (before after : Registry) : Prop where
  headcount : ∀ num, before.headcount num ≤ after.headcount num
  gone : ∀ seat, seat.2 < before.headcount seat.1 → after.isConnected seat = true →
    before.isConnected seat = true

structure Same (before after : Registry) : Prop where
  named : before.Named → after.Named
  seats : ∀ id, after.seat? id = before.seat? id
  connected : ∀ seat, after.isConnected seat = before.isConnected seat
  headcount : ∀ num, before.headcount num ≤ after.headcount num

structure Enters (before after : Registry) (id : PersonId) (seat : Seat) : Prop where
  named : before.Named → after.Named
  fresh : before.seat? id = none
  seats : ∀ other, after.seat? other = if id = other then some seat else before.seat? other
  unseated : before.headcount seat.1 ≤ seat.2
  connected : ∀ other, after.isConnected other = (before.isConnected other || decide (seat = other))
  headcount : ∀ num, before.headcount num ≤ after.headcount num

structure Leaves (before after : Registry) (id : PersonId) : Prop where
  named : before.Named → after.Named
  seats : ∀ other, after.seat? other = if id = other then none else before.seat? other
  connected : ∀ seat, after.isConnected seat =
    (before.isConnected seat && !decide (before.seat? id = some seat))
  headcount : ∀ num, before.headcount num ≤ after.headcount num

theorem Onward.refl (registry : Registry) : registry.Onward registry :=
  ⟨fun _ => Nat.le_refl _, fun _ _ connected => connected⟩

theorem Onward.trans (first : before.Onward middle) (later : middle.Onward after) :
    before.Onward after where
  headcount num := Nat.le_trans (first.headcount num) (later.headcount num)
  gone seat inside connected := first.gone seat inside
    (later.gone seat (Nat.lt_of_lt_of_le inside (first.headcount seat.1)) connected)

theorem Same.onward (same : before.Same after) : before.Onward after :=
  ⟨same.headcount, fun seat _ connected => (same.connected seat).symm.trans connected⟩

theorem Enters.onward (enters : before.Enters after id seat) : before.Onward after := by
  refine ⟨enters.headcount, ?_⟩
  intro other inside connected
  have different : seat ≠ other := by
    intro same
    rw [← same] at inside
    have outside := enters.unseated
    omega
  rwa [enters.connected, decide_eq_false different, Bool.or_false] at connected

theorem Leaves.onward (leaves : before.Leaves after id) : before.Onward after := by
  refine ⟨leaves.headcount, ?_⟩
  intro other inside connected
  rw [leaves.connected, Bool.and_eq_true] at connected
  exact connected.1

theorem Seated.same (seated : before.Seated) (same : before.Same after) : after.Seated where
  named := same.named seated.named
  apart := by
    intro id other seat held also
    rw [same.seats] at held also
    exact seated.apart held also
  filled := by
    intro seat
    rw [same.connected, seated.filled]
    simp only [same.seats]

theorem Seated.enters (seated : before.Seated) (enters : before.Enters after id seat) :
    after.Seated := by
  -- the player is new, so it was nobody's seat
  have empty (other : PersonId) : before.seat? other ≠ some seat := by
    intro held
    have inside := lt_of_isConnected ((seated.filled seat).2 ⟨other, held⟩)
    have outside := enters.unseated
    omega
  refine ⟨enters.named seated.named, ?_, ?_⟩
  · intro one other held first second
    rw [enters.seats] at first second
    split at first
    next here =>
      cases first
      split at second
      next there => exact here.symm.trans there
      next => exact absurd second (empty other)
    next =>
      split at second
      next =>
        cases second
        exact absurd first (empty one)
      next => exact seated.apart first second
  · intro other
    rw [enters.connected, Bool.or_eq_true, seated.filled, decide_eq_true_eq]
    constructor
    · intro either
      cases either with
      | inl known =>
        obtain ⟨holder, held⟩ := known
        have different : id ≠ holder := by
          intro same
          rw [← same, enters.fresh] at held
          cases held
        exact ⟨holder, by rw [enters.seats, if_neg different, held]⟩
      | inr new => exact ⟨id, by rw [enters.seats, if_pos rfl, new]⟩
    · intro known
      obtain ⟨holder, held⟩ := known
      rw [enters.seats] at held
      split at held
      next => exact Or.inr (Option.some.inj held)
      next => exact Or.inl ⟨holder, held⟩

theorem Seated.leaves (seated : before.Seated) (leaves : before.Leaves after id) :
    after.Seated := by
  refine ⟨leaves.named seated.named, ?_, ?_⟩
  · intro one other held first second
    rw [leaves.seats] at first second
    split at first
    next => cases first
    next =>
      split at second
      next => cases second
      next => exact seated.apart first second
  · intro seat
    rw [leaves.connected, Bool.and_eq_true, seated.filled, Bool.not_eq_true', decide_eq_false_iff_not]
    constructor
    · intro both
      obtain ⟨⟨holder, held⟩, other⟩ := both
      have different : id ≠ holder := by
        intro same
        exact other (same ▸ held)
      exact ⟨holder, by rw [leaves.seats, if_neg different, held]⟩
    · intro known
      obtain ⟨holder, held⟩ := known
      rw [leaves.seats] at held
      split at held
      next => cases held
      next different =>
        refine ⟨⟨holder, held⟩, ?_⟩
        intro same
        exact different (seated.apart same held)

theorem Enters.of_same (first : before.Same middle) (enters : middle.Enters after id seat) :
    before.Enters after id seat where
  named named := enters.named (first.named named)
  fresh := (first.seats id).symm.trans enters.fresh
  seats other := by rw [enters.seats, first.seats]
  unseated := Nat.le_trans (first.headcount seat.1) enters.unseated
  connected other := by rw [enters.connected, first.connected]
  headcount num := Nat.le_trans (first.headcount num) (enters.headcount num)

theorem Same.refl (registry : Registry) : registry.Same registry :=
  ⟨fun named => named, fun _ => rfl, fun _ => rfl, fun _ => Nat.le_refl _⟩

theorem Same.trans (first : before.Same middle) (later : middle.Same after) : before.Same after where
  named named := later.named (first.named named)
  seats id := (later.seats id).trans (first.seats id)
  connected seat := (later.connected seat).trans (first.connected seat)
  headcount num := Nat.le_trans (first.headcount num) (later.headcount num)

theorem same_updatePersons (registry : Registry) (id : PersonId) (f : Person → Person)
    (still : ∀ person, (f person).id = person.id ∧ (f person).seat = person.seat) :
    registry.Same { registry with persons := registry.persons.update id f } := by
  refine ⟨?_, ?_, fun _ => rfl, fun _ => Nat.le_refl _⟩
  · intro named other person found
    rw [person?_update] at found
    split at found
    next =>
      obtain ⟨old, known, rfl⟩ := Option.map_eq_some_iff.1 found
      exact (still old).1.trans (named other old known)
    next => exact named other person found
  · intro other
    rw [seat?, person?_update]
    split
    next =>
      rw [Option.map_map, seat?]
      congr 1
      funext person
      exact (still person).2
    next => rfl

theorem same_touch (registry : Registry) (id : PersonId) (now : Nat) :
    registry.Same (registry.touch id now).2 :=
  same_updatePersons registry id _ fun _ => ⟨rfl, rfl⟩

theorem same_attach (registry : Registry) (id : PersonId) (now : Nat) :
    registry.Same (registry.attach id now).2 :=
  same_updatePersons registry id _ fun _ => ⟨rfl, rfl⟩

theorem same_detach (registry : Registry) (id : PersonId) (now : Nat) :
    registry.Same (registry.detach id now) :=
  same_updatePersons registry id _ fun _ => ⟨rfl, rfl⟩

theorem conversation?_setRoom (registry : Registry) (num other : RoomNum) (room : Room) :
    Registry.conversation? { registry with lobby := registry.lobby.setRoom num room } other =
      if num = other then (registry.conversation? other).map fun _ => room.conversation
      else registry.conversation? other := by
  rw [conversation?, Lobby.room?_setRoom]
  split
  next => rw [conversation?, Option.map_map, Option.map_map]; rfl
  next => rfl

theorem same_setRoom {num : RoomNum} {room later : Room}
    (there : registry.lobby.room? num = some room) (quiet : later.conversation = room.conversation) :
    registry.Same { registry with lobby := registry.lobby.setRoom num later } := by
  have unchanged (other : RoomNum) :
      Registry.conversation? { registry with lobby := registry.lobby.setRoom num later } other =
        registry.conversation? other := Lobby.conversation_setRoom there later quiet other
  refine ⟨fun named => named, fun _ => rfl, ?_, ?_⟩
  · intro seat
    rw [isConnected, unchanged]
    rfl
  · intro other
    exact Nat.le_of_eq (by rw [headcount, headcount, unchanged other])

theorem conversation?_act (registry : Registry) (num other : RoomNum) (action : Action) :
    (registry.act num action).conversation? other =
      if num = other then (registry.conversation? other).map fun room => (room.act action).after
      else registry.conversation? other := by
  unfold Registry.act Lobby.act
  cases there : registry.lobby.room? num with
  | none =>
    by_cases here : num = other
    · have unknown : registry.conversation? other = none := by
        rw [conversation?, ← here, there]
        rfl
      rw [if_pos here, unknown, Option.map_none]
    · rw [if_neg here]
  | some room =>
    simp only
    rw [conversation?_setRoom, Room.conversation_act]
    by_cases here : num = other
    · have known : registry.conversation? other = some room.conversation := by
        rw [conversation?, ← here, there]
        rfl
      rw [if_pos here, if_pos here, known]
      rfl
    · rw [if_neg here, if_neg here]

theorem headcount_act (registry : Registry) (num other : RoomNum) (action : Action) :
    registry.headcount other ≤ (registry.act num action).headcount other := by
  rw [headcount, headcount, conversation?_act]
  split
  next =>
    cases registry.conversation? other with
    | none => exact Nat.le_refl _
    | some room =>
      exact (Conversation.altered_act room action).players_le
  next => exact Nat.le_refl _

theorem same_act (registry : Registry) (num : RoomNum) {action : Action}
    (stays : action.stays = true) : registry.Same (registry.act num action) := by
  refine ⟨fun named => named, fun _ => rfl, ?_, fun other => headcount_act registry num other action⟩
  intro seat
  rw [isConnected, conversation?_act, isConnected]
  split
  next =>
    cases registry.conversation? seat.1 with
    | none => rfl
    | some room => exact Conversation.isConnected_act stays room seat.2
  next => rfl

theorem person?_remove (registry : Registry) (id other : PersonId) :
    (registry.remove id).2.person? other = if id = other then none else registry.person? other := by
  unfold remove
  cases known : registry.person? id with
  | none =>
    by_cases here : id = other
    · rw [if_pos here, ← here]
      exact known
    · rw [if_neg here]
  | some person => exact Table.find?_erase registry.persons id other

theorem seat?_remove (registry : Registry) (id other : PersonId) :
    (registry.remove id).2.seat? other = if id = other then none else registry.seat? other := by
  rw [seat?, person?_remove]
  split
  next => rfl
  next => rfl

theorem leaves_remove (registry : Registry) (id : PersonId) :
    registry.Leaves (registry.remove id).2 id := by
  have named (names : registry.Named) : (registry.remove id).2.Named := by
    intro other found there
    rw [person?_remove] at there
    split at there
    next => cases there
    next => exact names other found there
  refine ⟨named, seat?_remove registry id, ?_, ?_⟩
  · intro seat
    unfold remove
    cases known : registry.person? id with
    | none =>
      rw [seat?, known, Option.map_none, decide_eq_false (Option.some_ne_none seat).symm,
        Bool.not_false, Bool.and_true]
    | some person =>
      rw [seat?, known, Option.map_some, isConnected, conversation?_act, isConnected]
      by_cases here : person.room = seat.1
      · have same : some person.seat = some seat ↔ seat.2 = person.player := by
          rw [Option.some.injEq, Prod.ext_iff]
          exact ⟨fun both => both.2.symm, fun player => ⟨here, player.symm⟩⟩
        have kept : Registry.conversation? { registry with persons := registry.persons.erase id }
          seat.1 = registry.conversation? seat.1 := rfl
        rw [if_pos here, decide_eq_decide.2 same, kept]
        cases registry.conversation? seat.1 with
        | none => rfl
        | some room => exact Conversation.isConnected_leave room person.player seat.2
      · have other : some person.seat ≠ some seat := by
          intro same
          exact here (congrArg Prod.fst (Option.some.inj same))
        rw [if_neg here, decide_eq_false other, Bool.not_false, Bool.and_true]
        rfl
  · intro num
    unfold remove
    cases known : registry.person? id with
    | none => exact Nat.le_refl _
    | some person => exact headcount_act _ person.room num _

theorem enter_open (lobby : Lobby) (name : String) (bag : List Char) :
    ∃ room, (lobby.enter name bag).2.room? (lobby.enter name bag).1 = some room ∧
      room.isOpen = true := by
  unfold Lobby.enter
  split
  next num found =>
    have free := (Option.filter_eq_some_iff.1 found).2
    rw [Lobby.isOpen] at free
    cases there : lobby.room? num with
    | none => rw [there] at free; cases free
    | some room =>
      rw [there] at free
      exact ⟨room, rfl, free⟩
  next => exact ⟨.ofBag bag, List.getElem?_concat_length, rfl⟩

theorem same_enter (registry : Registry) (name : String) (bag : List Char) :
    registry.Same { registry with lobby := (registry.lobby.enter name bag).2 } := by
  obtain ⟨kept, grown⟩ := enter_spec registry.lobby name bag
  have same (num : RoomNum) :
      Registry.conversation? { registry with lobby := (registry.lobby.enter name bag).2 } num =
        registry.conversation? num ∨
      registry.conversation? num = none ∧
        Registry.conversation? { registry with lobby := (registry.lobby.enter name bag).2 } num =
          some (.ofBag bag) := by
    cases was : registry.lobby.room? num with
    | some room => exact Or.inl (by rw [conversation?, kept num room was, conversation?, was])
    | none =>
      cases now : (registry.lobby.enter name bag).2.room? num with
      | none => exact Or.inl (by rw [conversation?, now, conversation?, was])
      | some room =>
        refine Or.inr ⟨by rw [conversation?, was]; rfl, ?_⟩
        rw [conversation?, now]
        rcases grown num room now with old | rfl
        · rw [was] at old
          cases old
        · rfl
  refine ⟨fun named => named, fun _ => rfl, ?_, ?_⟩
  · intro seat
    rw [isConnected, isConnected]
    rcases same seat.1 with old | ⟨none, new⟩
    · rw [old]
    · rw [new, none]
      rfl
  · intro num
    rw [headcount, headcount]
    rcases same num with old | ⟨none, new⟩
    · exact Nat.le_of_eq (by rw [old])
    · rw [new, none]
      exact Nat.zero_le _

theorem enters_put {num : RoomNum} {room : Room} (there : registry.lobby.room? num = some room)
    (free : room.isOpen = true) (name : String) (person : Person)
    (seat : person.seat = (num, room.conversation.players.length))
    (fresh : registry.person? person.id = none) :
    registry.Enters { lobby := (registry.act num (.join name)).lobby.prune
                      persons := registry.persons.put person.id person } person.id person.seat := by
  have known : registry.conversation? num = some room.conversation := by rw [conversation?, there]; rfl
  have put (other : PersonId) : (registry.persons.put person.id person).find? other =
      if person.id = other then some person else registry.persons.find? other :=
    Table.find?_put registry.persons person.id other person
  refine ⟨?_, ?_, ?_, ?_, ?_, fun other => headcount_act registry num other (.join name)⟩
  · intro named other found there
    have there := (put other).symm.trans there
    split at there
    next here =>
      obtain rfl := Option.some.inj there
      exact here
    next => exact named other found there
  · rw [seat?, fresh]
    rfl
  · intro other
    refine (congrArg (Option.map Person.seat) (put other)).trans ?_
    split
    next => rfl
    next => rfl
  · rw [seat, headcount, known]
    exact Nat.le_refl _
  · intro other
    change Option.any (·.isConnected other.2) ((registry.act num (.join name)).conversation? other.1) = _
    rw [conversation?_act, isConnected, seat]
    by_cases here : num = other.1
    · have same : (num, room.conversation.players.length) = other ↔
          other.2 = room.conversation.players.length := by
        rw [Prod.ext_iff]
        exact ⟨fun both => both.2.symm, fun player => ⟨here, player.symm⟩⟩
      rw [if_pos here, ← here, known, decide_eq_decide.2 same]
      exact Conversation.isConnected_join free name other.2
    · have different : (num, room.conversation.players.length) ≠ other := by
        intro same
        exact here (congrArg Prod.fst same)
      rw [if_neg here, decide_eq_false different, Bool.or_false]

theorem enters_join (roomName name : String) (remote : Address) (now : Nat) (draw : Draw)
    (fresh : registry.freshId? draw.ids = some id) :
    ∃ person later, registry.join roomName name remote now draw = (some person, later) ∧
      person.id = id ∧ person.lastSeen = now ∧ person.watchers = 0 ∧
      registry.Enters later id person.seat ∧
      ∀ other, later.person? other = if id = other then some person else registry.person? other := by
  have unknown : registry.person? id = none := by
    have free := List.find?_some fresh
    rwa [Table.contains, Bool.not_eq_true', Option.isSome_eq_false_iff, Option.isNone_iff_eq_none] at free
  obtain ⟨room, there, free⟩ := enter_open registry.lobby roomName draw.bag
  have joined : (room.act (.join name)).1.answer = .number (some room.conversation.players.length) :=
    congrArg Answer.number (Conversation.players_join free name).2
  have entering : Registry.Enters { registry with lobby := (registry.lobby.enter roomName draw.bag).2 }
      _ id _ :=
    enters_put there free name ⟨id, _, room.conversation.players.length, remote, now, 0⟩ rfl unknown
  refine ⟨_, _, ?_, rfl, rfl, rfl, entering.of_same (same_enter registry roomName draw.bag),
    fun other => Table.find?_put registry.persons id other _⟩
  unfold join Registry.act Lobby.act
  simp only [fresh, there]
  generalize room.act (.join name) = acted at joined
  obtain ⟨⟨answer, after, notices⟩, later⟩ := acted
  cases joined
  rfl

theorem join_none (roomName name : String) (remote : Address) (now : Nat) {draw : Draw}
    (none : registry.freshId? draw.ids = none) :
    registry.join roomName name remote now draw = (Option.none, registry) := by
  unfold join
  simp only [none]

def removeAll (registry : Registry) (ids : List PersonId) : Registry :=
  ids.foldl (fun registry id => (registry.remove id).2) registry

theorem person?_removeAll (registry : Registry) (ids : List PersonId) (other : PersonId) :
    (registry.removeAll ids).person? other = if other ∈ ids then none else registry.person? other := by
  induction ids generalizing registry with
  | nil => exact (if_neg List.not_mem_nil).symm
  | cons id rest ih =>
    have later := ih (registry.remove id).2
    rw [person?_remove] at later
    rw [removeAll, List.foldl_cons]
    refine later.trans ?_
    by_cases here : id = other
    · rw [if_pos here, ite_self, if_pos (here ▸ List.mem_cons_self)]
    · have same : other ∈ id :: rest ↔ other ∈ rest := by
        rw [List.mem_cons]
        exact or_iff_right (Ne.symm here)
      simp only [if_neg here, same]

theorem seat?_removeAll (registry : Registry) (ids : List PersonId) (other : PersonId) :
    (registry.removeAll ids).seat? other = if other ∈ ids then none else registry.seat? other := by
  rw [seat?, person?_removeAll]
  split
  next => rfl
  next => rfl

theorem Seated.removeAll (seated : registry.Seated) (ids : List PersonId) :
    (registry.removeAll ids).Seated ∧ registry.Onward (registry.removeAll ids) := by
  induction ids generalizing registry with
  | nil => exact ⟨seated, Onward.refl registry⟩
  | cons id rest ih =>
    have leaves := leaves_remove registry id
    have later := ih (seated.leaves leaves)
    exact ⟨later.1, leaves.onward.trans later.2⟩

theorem Seated.vacated (seated : registry.Seated) {ids : List PersonId}
    (held : registry.seat? id = some seat) (removed : id ∈ ids) :
    (registry.removeAll ids).isConnected seat = false := by
  rw [Bool.eq_false_iff]
  intro connected
  obtain ⟨holder, still⟩ := ((seated.removeAll ids).1.filled seat).1 connected
  rw [seat?_removeAll] at still
  split at still
  next => cases still
  next kept => exact kept (seated.apart held still ▸ removed)

end Registry

inductive RegistryStep where
  | join (room name : String) (remote : Address) (now : Nat) (draw : Draw)
  | remove (id : PersonId)
  | touch (id : PersonId) (now : Nat)
  | attach (id : PersonId) (now : Nat)
  | detach (id : PersonId) (now : Nat)
  | expire (timeout now : Nat)
  /-- An operation on a room that is neither a join nor a leave. -/
  | act (room : RoomNum) (action : Action) (stays : action.stays = true)

namespace Registry

variable {registry : Registry} {seat : Seat} {id : PersonId}

def step (registry : Registry) : RegistryStep → Registry
  | .join room name remote now draw => (registry.join room name remote now draw).2
  | .remove id => (registry.remove id).2
  | .touch id now => (registry.touch id now).2
  | .attach id now => (registry.attach id now).2
  | .detach id now => registry.detach id now
  | .expire timeout now => (registry.expirePersons timeout now).2
  | .act room action _ => registry.act room action

def run (registry : Registry) (steps : List RegistryStep) : Registry :=
  steps.foldl step registry

/-- The persons whom a step removes or finds silent too long. -/
def departing (registry : Registry) : RegistryStep → List PersonId
  | .remove id => [id]
  | .expire timeout now => registry.timedOut timeout now
  | .join .. | .touch .. | .attach .. | .detach .. | .act .. => []

def departs (registry : Registry) (id : PersonId) : List RegistryStep → Bool
  | [] => false
  | step :: rest => decide (id ∈ registry.departing step) || (registry.step step).departs id rest

theorem Seated.step (seated : registry.Seated) (step : RegistryStep) :
    (registry.step step).Seated ∧ registry.Onward (registry.step step) ∧
      ∀ id seat, registry.seat? id = some seat → id ∉ registry.departing step →
        (registry.step step).seat? id = some seat := by
  have neutral {after : Registry} (same : registry.Same after) : after.Seated ∧
      registry.Onward after ∧ ∀ id seat, registry.seat? id = some seat →
        id ∉ registry.departing step → after.seat? id = some seat := by
    refine ⟨seated.same same, same.onward, ?_⟩
    intro id seat held _
    rw [same.seats, held]
  have removed (ids : List PersonId) (departing : registry.departing step = ids) :
      (registry.removeAll ids).Seated ∧ registry.Onward (registry.removeAll ids) ∧
        ∀ id seat, registry.seat? id = some seat → id ∉ registry.departing step →
          (registry.removeAll ids).seat? id = some seat := by
    obtain ⟨fine, onward⟩ := seated.removeAll ids
    refine ⟨fine, onward, ?_⟩
    intro id seat held stays
    rw [departing] at stays
    rw [seat?_removeAll, if_neg stays, held]
  cases step with
  | join room name remote now draw =>
    cases drawn : registry.freshId? draw.ids with
    | none =>
      have none := join_none room name remote now drawn
      refine neutral ?_
      rw [Registry.step, none]
      exact Same.refl registry
    | some new =>
      obtain ⟨person, later, joined, _, _, _, enters, _⟩ := enters_join room name remote now draw drawn
      rw [Registry.step, joined]
      refine ⟨seated.enters enters, enters.onward, ?_⟩
      intro id seat held _
      have different : new ≠ id := by
        intro same
        rw [← same, enters.fresh] at held
        cases held
      rw [enters.seats, if_neg different, held]
  | remove id => exact removed [id] rfl
  | touch id now => exact neutral (same_touch registry id now)
  | attach id now => exact neutral (same_attach registry id now)
  | detach id now => exact neutral (same_detach registry id now)
  | expire timeout now => exact removed _ rfl
  | act room action stays => exact neutral (same_act registry room stays)

theorem seated_empty : ({} : Registry).Seated := by
  refine ⟨nofun, nofun, ?_⟩
  intro seat
  exact ⟨nofun, nofun⟩

theorem Seated.run (seated : registry.Seated) (steps : List RegistryStep) :
    (registry.run steps).Seated ∧ registry.Onward (registry.run steps) := by
  induction steps generalizing registry with
  | nil => exact ⟨seated, Onward.refl registry⟩
  | cons step rest ih =>
    obtain ⟨fine, onward, _⟩ := seated.step step
    obtain ⟨last, later⟩ := ih fine
    exact ⟨last, onward.trans later⟩

theorem Seated.connected_until (seated : registry.Seated) (held : registry.seat? id = some seat)
    (steps : List RegistryStep) :
    (registry.run steps).isConnected seat = !registry.departs id steps := by
  induction steps generalizing registry with
  | nil => exact (seated.filled seat).2 ⟨id, held⟩
  | cons step rest ih =>
    obtain ⟨fine, onward, kept⟩ := seated.step step
    rw [departs]
    by_cases gone : id ∈ registry.departing step
    · rw [decide_eq_true gone, Bool.true_or, Bool.not_true, Bool.eq_false_iff]
      intro connected
      have inside : seat.2 < registry.headcount seat.1 :=
        lt_of_isConnected ((seated.filled seat).2 ⟨id, held⟩)
      have back := (fine.run rest).2.gone seat (Nat.lt_of_lt_of_le inside (onward.headcount seat.1))
        connected
      have empty : (registry.step step).isConnected seat = false := by
        cases step with
        | remove other => exact seated.vacated held gone
        | expire timeout now => exact seated.vacated held gone
        | join | touch | attach | detach | act => cases gone
      rw [empty] at back
      cases back
    · rw [decide_eq_false gone, Bool.false_or]
      exact ih fine (kept id seat held gone)

end Registry

/-- Whatever a server goes through, its persons are the connected players of its rooms. -/
theorem persons_are_connected_players (steps : List RegistryStep) :
    let registry := Registry.run {} steps
    (∀ id person, registry.person? id = some person → person.id = id ∧
      registry.isConnected (person.room, person.player) = true) ∧
    (∀ one other first second, registry.person? one = some first →
      registry.person? other = some second → first.room = second.room →
      first.player = second.player → one = other) ∧
    (∀ num player, registry.isConnected (num, player) = true →
      ∃ id person, registry.person? id = some person ∧ person.room = num ∧ person.player = player) ∧
    (∀ room name remote now draw, (∃ id ∈ draw.ids, registry.person? id = none) →
      ∃ person later, registry.join room name remote now draw = (some person, later) ∧
        person.id ∈ draw.ids ∧ registry.person? person.id = none ∧
        ∀ id, later.person? id = if person.id = id then some person else registry.person? id) ∧
    ∀ id person later, registry.person? id = some person →
      ((registry.run later).isConnected (person.room, person.player) = true ↔
        registry.departs id later = false) := by
  intro registry
  have seated : registry.Seated := (Registry.seated_empty.run steps).1
  clear_value registry
  have seat {id : PersonId} {person : Person} (known : registry.person? id = some person) :
      registry.seat? id = some (person.room, person.player) := by
    rw [Registry.seat?, known]
    rfl
  refine ⟨?_, ?_, ?_, ?_, ?_⟩
  · intro id person known
    exact ⟨seated.named id person known, (seated.filled _).2 ⟨id, seat known⟩⟩
  · intro one other first second here there room player
    have same := seat there
    rw [← room, ← player] at same
    exact seated.apart (seat here) same
  · intro num player connected
    obtain ⟨id, held⟩ := (seated.filled (num, player)).1 connected
    obtain ⟨person, known, same⟩ := Option.map_eq_some_iff.1 held
    exact ⟨id, person, known, congrArg Prod.fst same, congrArg Prod.snd same⟩
  · intro room name remote now draw free
    cases drawn : registry.freshId? draw.ids with
    | none =>
      obtain ⟨id, member, unknown⟩ := free
      -- Every id drawn would be in use.
      have used := List.find?_eq_none.1 drawn id member
      rw [Bool.not_eq_true', Bool.not_eq_false, Table.contains] at used
      rw [Registry.person?] at unknown
      rw [unknown] at used
      cases used
    | some id =>
      obtain ⟨person, later, joined, rfl, _, _, enters, persons⟩ :=
        Registry.enters_join room name remote now draw drawn
      exact ⟨person, later, joined, List.mem_of_find?_eq_some drawn,
        Option.map_eq_none_iff.1 enters.fresh, persons⟩
  · intro id person later known
    rw [seated.connected_until (seat known) later, Bool.not_eq_true']

end TileRoom
