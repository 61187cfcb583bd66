import TileRoom.Proofs.Noticing
import TileRoom.Proofs.Ordering

/-! A room and the tasks that write its streams. A task asks its stream for bytes and writes
them; when it gets none it flushes and waits for a notice, and whatever happens in the room
may happen between any two of its steps. A task never waits without a notice for a stream
that has something to say. -/

namespace TileRoom

inductive PumpPhase where
  | fetching
  | sending (bytes : Bytes)
  | flushing
  | waiting
  | ended
deriving DecidableEq

/-- Whom a stream is for: a player who knows the messages before the first one to tell. -/
structure Viewer where
  id : PersonId
  player : Nat
  first : Nat
  keyHash : Option Key.Hash

structure Pump where
  watch : WatchId
  viewer : Viewer
  phase : PumpPhase := .fetching
  written : Bytes := []

/-- The steps of a task: it asks for bytes into a buffer with room for one and some more,
writes one byte and some more, flushes, and wakes up. The peer may send something, which is
ignored, or go away. -/
inductive PumpStep where
  | fetch (spare : Nat)
  | send (spare : Nat)
  | flush
  | wake
  | hear
  | hangUp
deriving DecidableEq

namespace Pump

def unsent (pump : Pump) : Bytes :=
  match pump.phase with
  | .sending bytes => bytes
  | .fetching | .flushing | .waiting | .ended => []

def finish (room : Room) (pump : Pump) : Room × Pump :=
  ((room.unwatch pump.watch).2, { pump with phase := .ended })

def fetch (room : Room) (pump : Pump) (size : Nat) : Room × Pump :=
  let (bytes, room) := room.read pump.watch size
  if bytes ≠ [] then (room, { pump with phase := .sending bytes })
  else if (room.stream? pump.watch).all (·.isFinished) then finish room pump
  else (room, { pump with phase := .flushing })

def send (pump : Pump) (bytes : Bytes) (count : Nat) : Pump :=
  { pump with
    phase := if bytes.length ≤ count then .fetching else .sending (bytes.drop count)
    written := pump.written ++ bytes.take count }

def wake (room : Room) (pump : Pump) : Room × Pump :=
  match room.takeNotice pump.watch with
  | (true, room) => (room, { pump with phase := .fetching })
  | (false, _) => (room, pump)

/-- A step that is not the task's next one has no effect. -/
def step (room : Room) (pump : Pump) : PumpStep → Room × Pump
  | .fetch spare =>
      match pump.phase with
      | .fetching => fetch room pump (spare + 1)
      | .sending _ | .flushing | .waiting | .ended => (room, pump)
  | .send spare =>
      match pump.phase with
      | .sending bytes => (room, pump.send bytes (spare + 1))
      | .fetching | .flushing | .waiting | .ended => (room, pump)
  | .flush =>
      match pump.phase with
      | .flushing => (room, { pump with phase := .waiting })
      | .fetching | .sending _ | .waiting | .ended => (room, pump)
  | .wake =>
      match pump.phase with
      | .waiting => wake room pump
      | .fetching | .sending _ | .flushing | .ended => (room, pump)
  | .hear =>
      match pump.phase with
      | .waiting => (room, { pump with phase := .fetching })
      | .fetching | .sending _ | .flushing | .ended => (room, pump)
  | .hangUp =>
      match pump.phase with
      | .ended => (room, pump)
      | .fetching | .sending _ | .flushing | .waiting => finish room pump

def isIdle (room : Room) (pump : Pump) : Bool :=
  match pump.phase with
  | .fetching | .sending _ | .flushing => false
  | .waiting => !room.isNotified pump.watch
  | .ended => true

variable {room : Room} {pump : Pump} {size : Nat}

theorem fetch_some (filled : (room.read pump.watch size).1 ≠ []) :
    fetch room pump size = ((room.read pump.watch size).2,
      { pump with phase := .sending (room.read pump.watch size).1 }) :=
  if_pos filled

theorem fetch_none (empty : (room.read pump.watch size).1 = []) :
    fetch room pump size =
      if ((room.read pump.watch size).2.stream? pump.watch).all (·.isFinished) then
        finish (room.read pump.watch size).2 pump
      else ((room.read pump.watch size).2, { pump with phase := .flushing }) :=
  if_neg (not_not_intro empty)

end Pump

/-- A room and the tasks of all streams that were opened. -/
structure Relay where
  room : Room
  pumps : List Pump := []

inductive RelayStep where
  | act (action : Action)
  | watch (id : PersonId) (player lastMessage : Nat) (keyHash : Option Key.Hash)
  | pump (index : Nat) (step : PumpStep)

namespace Relay

def watch (relay : Relay) (id : PersonId) (player lastMessage : Nat) (keyHash : Option Key.Hash) :
    Relay :=
  if player < relay.room.conversation.players.length then
    let first := min lastMessage relay.room.conversation.messages.length
    let (watch, room) := relay.room.watch id player lastMessage keyHash
    { room, pumps := relay.pumps ++ [{ watch, viewer := { id, player, first, keyHash } }] }
  else relay

def pumpStep (relay : Relay) (index : Nat) (step : PumpStep) : Relay :=
  match relay.pumps[index]? with
  | none => relay
  | some pump =>
      let (room, pump) := pump.step relay.room step
      { room, pumps := relay.pumps.set index pump }

def step (relay : Relay) : RelayStep → Relay
  | .act action => { relay with room := (relay.room.act action).2 }
  | .watch id player lastMessage keyHash => relay.watch id player lastMessage keyHash
  | .pump index step => relay.pumpStep index step

def run (relay : Relay) (steps : List RelayStep) : Relay :=
  steps.foldl step relay

def isQuiet (relay : Relay) : Bool :=
  relay.pumps.all (·.isIdle relay.room)

end Relay

structure Room.Tends (watch : WatchId) (before after : Room) : Prop where
  wired : after.Wired
  conversation : after.conversation = before.conversation
  nextWatch : after.nextWatch = before.nextWatch
  others : ∀ other, watch ≠ other → after.stream? other = before.stream? other

namespace Room

variable {room after : Room} {watch : WatchId} {keyHash : Option Key.Hash} {id : PersonId}
  {player first : Nat} {told : List Frame} {written : Bytes}

theorem tends_same (wired : room.Wired) : room.Tends watch room :=
  ⟨wired, rfl, rfl, fun _ _ => rfl⟩

theorem tends_updateStream (wired : room.Wired) (f : WatchStream → WatchStream) :
    room.Tends watch (room.updateStream watch f) where
  wired := wired_updateStream wired watch f
  conversation := rfl
  nextWatch := rfl
  others other apart := by rw [stream?_updateStream, if_neg apart]

theorem tends_read (wired : room.Wired) (size : Nat) : room.Tends watch (room.read watch size).2 := by
  cases found : room.stream? watch with
  | none =>
    rw [read, found]
    exact tends_same wired
  | some stream =>
    rw [read, found]
    exact tends_updateStream wired fun _ => (stream.read room.conversation size).2

theorem tends_takeNotice (wired : room.Wired) : room.Tends watch (room.takeNotice watch).2 :=
  tends_updateStream wired ({ · with notified := false })

theorem tends_unwatch (wired : room.Wired) : room.Tends watch (room.unwatch watch).2 where
  wired := wired_unwatch wired watch
  conversation := by
    unfold unwatch
    split <;> rfl
  nextWatch := by
    unfold unwatch
    split <;> rfl
  others other apart := (stream?_unwatch room watch other apart).1

theorem Tends.trans {middle : Room} (first : room.Tends watch middle)
    (later : middle.Tends watch after) : room.Tends watch after where
  wired := later.wired
  conversation := later.conversation.trans first.conversation
  nextWatch := later.nextWatch.trans first.nextWatch
  others other apart := (later.others other apart).trans (first.others other apart)

theorem Keeps.same (keeps : room.Keeps watch keyHash id player first told written)
    (wired : after.Wired) (quiet : after.conversation = room.conversation)
    (alone : after.stream? watch = room.stream? watch) :
    after.Keeps watch keyHash id player first told written where
  wired := wired
  consistent := by
    rw [quiet]
    exact keeps.consistent
  stream := by
    rw [quiet, alone]
    exact keeps.stream

theorem Keeps.takeNotice (keeps : room.Keeps watch keyHash id player first told written) :
    (room.takeNotice watch).2.Keeps watch keyHash id player first told written := by
  obtain ⟨wired, consistent, stream, found, orders, spelled⟩ := keeps
  have later : (room.takeNotice watch).2.stream? watch = some { stream with notified := false } := by
    rw [Room.takeNotice, stream?_updateStream, if_pos rfl, found]
    rfl
  exact ⟨(tends_takeNotice wired).wired, consistent, _, later, orders, ⟨spelled.text⟩⟩

theorem Calm.same (calm : room.Calm watch) (quiet : after.conversation = room.conversation)
    (alone : after.stream? watch = room.stream? watch) : after.Calm watch := by
  rw [Calm, isNotified, hasPending, alone, quiet]
  exact calm

end Room

namespace Pump

variable {room after : Room} {pump : Pump}

def Keeps (room : Room) (pump : Pump) (told : List Frame) : Prop :=
  room.Keeps pump.watch pump.viewer.keyHash pump.viewer.id pump.viewer.player pump.viewer.first told
    (pump.written ++ pump.unsent)

/-- What holds of an open task. Before it waits, its stream can be left waiting. -/
structure Serves (room : Room) (pump : Pump) : Prop where
  keeps : ∃ told, pump.Keeps room told
  calm : pump.phase = .flushing ∨ pump.phase = .waiting → room.Calm pump.watch

theorem Serves.act (serves : pump.Serves room) (action : Action) :
    pump.Serves (room.act action).2 := by
  obtain ⟨told, keeps⟩ := serves.keeps
  constructor
  · exact ⟨told, Room.Keeps.act keeps action⟩
  · intro resting
    exact (serves.calm resting).act keeps.wired action

theorem Serves.same (serves : pump.Serves room) (wired : after.Wired)
    (quiet : after.conversation = room.conversation)
    (alone : after.stream? pump.watch = room.stream? pump.watch) : pump.Serves after := by
  obtain ⟨told, keeps⟩ := serves.keeps
  constructor
  · exact ⟨told, Room.Keeps.same keeps wired quiet alone⟩
  · intro resting
    exact (serves.calm resting).same quiet alone

theorem serves_watch (wired : room.Wired) (consistent : room.conversation.Consistent) {player : Nat}
    (inside : player < room.conversation.players.length) (id : PersonId) (lastMessage : Nat)
    (keyHash : Option Key.Hash) :
    Pump.Serves (room.watch id player lastMessage keyHash).2 {
      watch := room.nextWatch
      viewer := ⟨id, player, min lastMessage room.conversation.messages.length, keyHash⟩ } where
  keeps := ⟨[], Room.keeps_watch wired consistent inside id lastMessage keyHash⟩
  calm := by simp

structure Goes (room : Room) (pump : Pump) (result : Room × Pump) : Prop where
  tends : room.Tends pump.watch result.1
  watch : result.2.watch = pump.watch
  viewer : result.2.viewer = pump.viewer
  serves : result.2.phase ≠ .ended → result.2.Serves result.1

theorem goes_finish {middle : Room} (tends : room.Tends pump.watch middle) :
    Goes room pump (finish middle pump) where
  tends := tends.trans (Room.tends_unwatch tends.wired)
  watch := rfl
  viewer := rfl
  serves going := absurd rfl going

theorem goes_same {later : Pump} (wired : room.Wired) (watch : later.watch = pump.watch)
    (viewer : later.viewer = pump.viewer) (serves : later.phase ≠ .ended → later.Serves room) :
    Goes room pump (room, later) :=
  ⟨Room.tends_same wired, watch, viewer, serves⟩

theorem Serves.fetch (serves : pump.Serves room) (fetching : pump.phase = .fetching)
    (spare : Nat) : Goes room pump (fetch room pump (spare + 1)) := by
  obtain ⟨told, keeps⟩ := serves.keeps
  have none : pump.unsent = [] := by rw [unsent, fetching]
  rw [Keeps, none, List.append_nil] at keeps
  obtain ⟨more, reads⟩ := keeps.read (spare + 1)
  have tends : room.Tends pump.watch (room.read pump.watch (spare + 1)).2 :=
    Room.tends_read keeps.wired (spare + 1)
  obtain ⟨stream, found, _⟩ := keeps.stream
  obtain ⟨bytes, next, quiet⟩ := Room.read_some found (spare + 1)
  by_cases filled : (room.read pump.watch (spare + 1)).1 ≠ []
  · rw [fetch_some filled]
    exact ⟨tends, rfl, rfl, fun _ => ⟨⟨told ++ more, reads⟩, by simp⟩⟩
  · have nothing := Decidable.not_not.1 filled
    rw [fetch_none nothing]
    split
    next => exact goes_finish tends
    next unfinished =>
      refine ⟨tends, rfl, rfl, fun _ => ⟨⟨told ++ more, ?_⟩, fun _ => ?_⟩⟩
      · rw [nothing] at reads
        exact reads
      · rw [next] at unfinished
        rw [bytes] at nothing
        right
        constructor
        · rw [Room.hasPending, next, quiet]
          exact WatchStream.hasPending_of_read_nil (Nat.succ_pos spare) nothing
        · rw [next]
          exact Bool.eq_false_iff.2 unfinished

theorem send_whole (pump : Pump) (bytes : Bytes) (count : Nat) :
    (pump.send bytes count).written ++ (pump.send bytes count).unsent = pump.written ++ bytes := by
  unfold send unsent
  by_cases all : bytes.length ≤ count
  · rw [if_pos all, List.take_of_length_le all, List.append_nil]
  · rw [if_neg all, List.append_assoc, List.take_append_drop]

theorem Serves.send (serves : pump.Serves room) {bytes : Bytes}
    (sending : pump.phase = .sending bytes) (count : Nat) : (pump.send bytes count).Serves room := by
  obtain ⟨told, keeps⟩ := serves.keeps
  have taken : pump.unsent = bytes := by rw [unsent, sending]
  rw [Keeps, taken, ← send_whole pump bytes count] at keeps
  constructor
  · exact ⟨told, keeps⟩
  · unfold Pump.send
    dsimp only
    split <;> simp

theorem Serves.enter (serves : pump.Serves room) (phase : PumpPhase)
    (none : pump.unsent = Pump.unsent { pump with phase })
    (resting : phase = .flushing ∨ phase = .waiting → room.Calm pump.watch) :
    Pump.Serves room { pump with phase } where
  keeps := by
    unfold Keeps
    rw [← none]
    exact serves.keeps
  calm := resting

theorem Serves.wake (serves : pump.Serves room) (wired : room.Wired)
    (waiting : pump.phase = .waiting) : Goes room pump (wake room pump) := by
  obtain ⟨told, keeps⟩ := serves.keeps
  have none : pump.unsent = [] := by rw [unsent, waiting]
  rw [Keeps, none] at keeps
  unfold Pump.wake
  split
  next noticed taken =>
    have later : (room.takeNotice pump.watch).2 = noticed := congrArg Prod.snd taken
    rw [← later]
    exact ⟨Room.tends_takeNotice wired, rfl, rfl,
      fun _ => ⟨⟨told, keeps.takeNotice⟩, by simp⟩⟩
  next => exact goes_same wired rfl rfl fun _ => serves

theorem step_goes (wired : room.Wired) (serves : pump.phase ≠ .ended → pump.Serves room)
    (step : PumpStep) : Goes room pump (pump.step room step) := by
  have idle : Goes room pump (room, pump) := goes_same wired rfl rfl serves
  obtain ⟨watch, viewer, phase, written⟩ := pump
  cases step with
  | fetch spare =>
    cases phase with
    | fetching => exact (serves nofun).fetch rfl spare
    | sending | flushing | waiting | ended => exact idle
  | send spare =>
    cases phase with
    | sending bytes => exact goes_same wired rfl rfl fun _ => (serves nofun).send rfl (spare + 1)
    | fetching | flushing | waiting | ended => exact idle
  | flush =>
    cases phase with
    | flushing =>
      have calm := (serves nofun).calm (Or.inl rfl)
      exact goes_same wired rfl rfl fun _ => (serves nofun).enter .waiting rfl fun _ => calm
    | fetching | sending | waiting | ended => exact idle
  | wake =>
    cases phase with
    | waiting => exact (serves nofun).wake wired rfl
    | fetching | sending | flushing | ended => exact idle
  | hear =>
    cases phase with
    | waiting => exact goes_same wired rfl rfl fun _ => (serves nofun).enter .fetching rfl (by simp)
    | fetching | sending | flushing | ended => exact idle
  | hangUp =>
    cases phase with
    | ended => exact idle
    | fetching | sending | flushing | waiting => exact goes_finish (Room.tends_same wired)

end Pump

namespace Relay

/-- What holds of a relay in every run: each task has a stream of its own, and serves it as
long as it has not ended. -/
structure Orderly (relay : Relay) : Prop where
  wired : relay.room.Wired
  consistent : relay.room.conversation.Consistent
  given : ∀ pump ∈ relay.pumps, pump.watch < relay.room.nextWatch
  distinct : (relay.pumps.map (·.watch)).Nodup
  serves : ∀ (index : Nat) (pump : Pump), relay.pumps[index]? = some pump → pump.phase ≠ .ended →
    pump.Serves relay.room

variable {relay : Relay}

theorem orderly_ofBag (bag : List Char) : Orderly { room := .ofBag bag } where
  wired := Room.wired_ofConversation _
  consistent := Conversation.consistent_ofBag bag
  given := nofun
  distinct := List.nodup_nil
  serves index pump found := by simp at found

theorem Orderly.act (orderly : relay.Orderly) (action : Action) :
    (relay.step (.act action)).Orderly := by
  constructor
  case wired => exact Room.wired_act orderly.wired action
  case consistent =>
    show (relay.room.act action).2.conversation.Consistent
    rw [Room.conversation_act]
    exact Conversation.consistent_act orderly.consistent action
  case given =>
    intro pump member
    show pump.watch < (relay.room.act action).2.nextWatch
    have kept : (relay.room.act action).2.nextWatch = relay.room.nextWatch := by rw [Room.act_eq]
    rw [kept]
    exact orderly.given pump member
  case distinct => exact orderly.distinct
  case serves =>
    intro index pump found going
    exact (orderly.serves index pump found going).act action

theorem Orderly.watch (orderly : relay.Orderly) (id : PersonId) (player lastMessage : Nat)
    (keyHash : Option Key.Hash) : (relay.watch id player lastMessage keyHash).Orderly := by
  unfold Relay.watch
  split
  next inside =>
    have wired := Room.wired_watch orderly.wired id player lastMessage keyHash
    constructor
    case wired => exact wired
    case consistent => exact orderly.consistent
    case given =>
      intro pump member
      show pump.watch < relay.room.nextWatch + 1
      rcases List.mem_append.1 member with old | new
      · exact Nat.lt_succ_of_lt (orderly.given pump old)
      · rw [List.mem_singleton.1 new]
        exact Nat.lt_succ_self _
    case distinct =>
      rw [List.map_append, List.map_singleton, List.nodup_append]
      refine ⟨orderly.distinct, by simp, ?_⟩
      intro watch known other new same
      obtain ⟨pump, member, rfl⟩ := List.mem_map.1 known
      rw [List.mem_singleton.1 new] at same
      exact Nat.ne_of_lt (orderly.given pump member) same
    case serves =>
      intro index pump found going
      rcases Nat.lt_or_ge index relay.pumps.length with old | new
      · rw [List.getElem?_append_left old] at found
        apply (orderly.serves index pump found going).same wired rfl
        have below := orderly.given pump (List.mem_of_getElem? found)
        rw [Room.stream?_watch, if_neg (Nat.ne_of_gt below)]
      · rw [List.getElem?_append_right new] at found
        obtain rfl := List.mem_singleton.1 (List.mem_of_getElem? found)
        exact Pump.serves_watch orderly.wired orderly.consistent inside id lastMessage keyHash
  next => exact orderly

theorem Orderly.pumpStep (orderly : relay.Orderly) (index : Nat) (step : PumpStep) :
    (relay.pumpStep index step).Orderly := by
  unfold Relay.pumpStep
  cases here : relay.pumps[index]? with
  | none => exact orderly
  | some pump =>
    have goes := Pump.step_goes orderly.wired (orderly.serves index pump here) step
    dsimp only
    generalize pump.step relay.room step = result at goes ⊢
    obtain ⟨inside, there⟩ := List.getElem?_eq_some_iff.1 here
    constructor
    case wired => exact goes.tends.wired
    case consistent =>
      show result.1.conversation.Consistent
      rw [goes.tends.conversation]
      exact orderly.consistent
    case given =>
      intro other member
      show other.watch < result.1.nextWatch
      rw [goes.tends.nextWatch]
      rcases List.mem_or_eq_of_mem_set member with old | rfl
      · exact orderly.given other old
      · rw [goes.watch]
        exact orderly.given pump (List.mem_of_getElem? here)
    case distinct =>
      show ((relay.pumps.set index result.2).map (·.watch)).Nodup
      have within : index < (relay.pumps.map (·.watch)).length := by
        rw [List.length_map]
        exact inside
      have same : (relay.pumps.map (·.watch))[index] = pump.watch := by
        rw [List.getElem_map, there]
      rw [List.map_set, goes.watch, ← same, List.set_getElem_self]
      exact orderly.distinct
    case serves =>
      intro other found known going
      by_cases same : index = other
      · rw [← same] at known
        obtain rfl := Option.some.inj ((List.getElem?_set_self inside).symm.trans known)
        exact goes.serves going
      · rw [List.getElem?_set_ne same] at known
        -- The step tends to its own stream only.
        have apart : pump.watch ≠ found.watch := by
          intro shared
          apply same
          apply (List.getElem?_inj (by simpa using inside) orderly.distinct).1
          rw [List.getElem?_map, List.getElem?_map, here, known]
          exact congrArg some shared
        exact (orderly.serves other found known going).same goes.tends.wired
          goes.tends.conversation (goes.tends.others found.watch apart)

theorem Orderly.run (orderly : relay.Orderly) (steps : List RelayStep) : (relay.run steps).Orderly := by
  induction steps generalizing relay with
  | nil => exact orderly
  | cons step rest ih =>
    apply ih
    cases step with
    | act action => exact orderly.act action
    | watch id player lastMessage keyHash => exact orderly.watch id player lastMessage keyHash
    | pump index step => exact orderly.pumpStep index step

end Relay

end TileRoom
