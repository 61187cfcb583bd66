import TileRoom.Proofs.Serving
import TileRoom.Proofs.Waking
import TileRoom.Server.Link

/-! The steps of a connection of a server are steps of the task of its stream. So a connection
that is idle before its response is over has written all there is to tell. -/

namespace TileRoom

namespace Pump

def walk (room : Room) (pump : Pump) : List PumpStep → Room × Pump
  | [] => (room, pump)
  | step :: rest =>
      let (room, pump) := pump.step room step
      walk room pump rest

theorem walk_goes {room : Room} {pump : Pump} (wired : room.Wired)
    (serves : pump.phase ≠ .ended → pump.Serves room) (steps : List PumpStep) :
    Goes room pump (pump.walk room steps) := by
  induction steps generalizing room pump with
  | nil => exact goes_same wired rfl rfl serves
  | cons step rest ih =>
    have first := step_goes wired serves step
    have later := ih first.tends.wired first.serves
    constructor
    case tends => exact first.tends.trans (first.watch ▸ later.tends)
    case watch => exact later.watch.trans first.watch
    case viewer => exact later.viewer.trans first.viewer
    case serves => exact later.serves

end Pump

namespace Registry

variable {registry : Registry} {num : RoomNum} {room : Room}

theorem room?_setRoom_self (there : registry.lobby.room? num = some room) (later : Room) :
    (registry.lobby.setRoom num later).room? num = some later := by
  rw [Lobby.room?_setRoom, if_pos rfl, there, Option.map_some]

theorem room?_close (there : registry.lobby.room? num = some room) (watch : WatchId)
    (watching : Option PersonId) (now : Nat) :
    (registry.close ⟨.stream num watch, watching⟩ now).lobby.room? num =
      some (room.unwatch watch).2 := by
  have closed (middle : Registry) (same : middle.lobby = registry.lobby) :
      (middle.close ⟨.stream num watch, none⟩ now).lobby.room? num =
        some (room.unwatch watch).2 := by
    rw [← same] at there
    unfold close
    simp only [there]
    exact room?_setRoom_self there _
  cases watching with
  | none => exact closed registry rfl
  | some id => exact closed (registry.detach id now) rfl

end Registry

namespace Link

/-- The phase of a connection that is as far as a task. A connection never stops with bytes it
took and did not write, nor before it flushes. -/
inductive AsFar (num : RoomNum) (watching : Option PersonId) (pump : Pump) : LinkPhase → Prop where
  | writing (fetching : pump.phase = .fetching) :
      AsFar num watching pump (.writing ⟨.stream num pump.watch, watching⟩)
  | waiting (waiting : pump.phase = .waiting) :
      AsFar num watching pump (.waiting ⟨.stream num pump.watch, watching⟩)
  | ended (ended : pump.phase = .ended) : AsFar num watching pump (.ended .closed)

/-- A step of a connection is some steps of a task: they leave the room the same, write the same
bytes and lead as far. -/
def Walks (num : RoomNum) (watching : Option PersonId) (room : Room) (pump : Pump)
    (result : LinkStep) : Prop :=
  ∃ steps, result.registry.lobby.room? num = some (pump.walk room steps).1 ∧
    AsFar num watching (pump.walk room steps).2 result.link.phase ∧
    (pump.walk room steps).2.written = pump.written ++ result.written

variable {link : Link} {registry : Registry} {num : RoomNum} {watching : Option PersonId}
  {room : Room} {pump : Pump}

theorem walks_of {steps : List PumpStep} {later : Room} {next : Pump} {result : LinkStep}
    (walked : pump.walk room steps = (later, next))
    (after : result.registry.lobby.room? num = some later)
    (far : AsFar num watching next result.link.phase)
    (written : next.written = pump.written ++ result.written) :
    Walks num watching room pump result := by
  refine ⟨steps, ?_⟩
  rw [walked]
  exact ⟨after, far, written⟩

theorem walks_idle (there : registry.lobby.room? num = some room)
    (here : AsFar num watching pump link.phase) :
    Walks num watching room pump (link.idle registry) :=
  ⟨[], there, here, (List.append_nil _).symm⟩

theorem walks_writing (there : registry.lobby.room? num = some room)
    (fetching : pump.phase = .fetching)
    (writing : link.phase = .writing ⟨.stream num pump.watch, watching⟩) (now : Nat) :
    Walks num watching room pump (link.advance registry now) := by
  let bytes := (room.read pump.watch writeSize).1
  let later := (room.read pump.watch writeSize).2
  have after := Registry.room?_setRoom_self there later
  have read : registry.read (.stream num pump.watch) writeSize =
      (bytes, .stream num pump.watch,
        { registry with lobby := registry.lobby.setRoom num later }) := by
    rw [Registry.read, there]
  have asked : pump.step room (.fetch 1023) = Pump.fetch room pump writeSize := by
    rw [Pump.step, fetching]
    rfl
  unfold advance
  rw [writing]
  dsimp only
  rw [read]
  dsimp only
  by_cases filled : bytes ≠ []
  · rw [if_pos filled]
    have sent : Pump.send { pump with phase := .sending bytes } bytes (bytes.length + 1) =
        { pump with phase := .fetching, written := pump.written ++ bytes } := by
      rw [Pump.send, if_pos (Nat.le_succ _), List.take_of_length_le (Nat.le_succ _)]
    have walked : pump.walk room [.fetch 1023, .send bytes.length] =
        (later, { pump with phase := .fetching, written := pump.written ++ bytes }) := by
      rw [Pump.walk, asked, Pump.fetch_some filled, ← sent]
      rfl
    exact walks_of walked after (.writing rfl) rfl
  · rw [if_neg filled]
    have fetched := asked.trans (Pump.fetch_none (Decidable.not_not.1 filled))
    have same : Registry.isFinished { registry with lobby := registry.lobby.setRoom num later }
        (.stream num pump.watch) = (later.stream? pump.watch).all (·.isFinished) := by
      rw [Registry.isFinished, Registry.stream?, after]
      rfl
    rw [same]
    by_cases finished : (later.stream? pump.watch).all (·.isFinished) = true
    · rw [if_pos finished] at fetched ⊢
      have walked : pump.walk room [.fetch 1023] = Pump.finish later pump := fetched
      exact walks_of walked (Registry.room?_close after pump.watch watching now) (.ended rfl)
        (List.append_nil _).symm
    · rw [if_neg finished] at fetched ⊢
      have walked : pump.walk room [.fetch 1023, .flush] =
          (later, { pump with phase := .waiting }) := by
        rw [Pump.walk, fetched]
        rfl
      exact walks_of walked after (.waiting rfl) (List.append_nil _).symm

theorem isNotified_stream (there : registry.lobby.room? num = some room) (watch : WatchId) :
    isNotified registry (.stream num watch) = room.isNotified watch := by
  rw [isNotified, Registry.stream?, there]
  rfl

theorem walks_waiting (there : registry.lobby.room? num = some room)
    (resting : pump.phase = .waiting)
    (waiting : link.phase = .waiting ⟨.stream num pump.watch, watching⟩) (now : Nat) :
    Walks num watching room pump (link.advance registry now) := by
  unfold advance
  rw [waiting]
  dsimp only
  rw [isNotified_stream there]
  by_cases noticed : room.isNotified pump.watch = true
  · rw [if_pos noticed]
    have taken : room.takeNotice pump.watch = (true, (room.takeNotice pump.watch).2) :=
      Prod.ext noticed rfl
    have walked : pump.walk room [.wake] =
        ((room.takeNotice pump.watch).2, { pump with phase := .fetching }) := by
      show pump.step room .wake = _
      rw [Pump.step, resting]
      show Pump.wake room pump = _
      rw [Pump.wake, taken]
    have after : (takeNotice registry (.stream num pump.watch)).lobby.room? num =
        some (room.takeNotice pump.watch).2 := by
      rw [takeNotice, there]
      exact Registry.room?_setRoom_self there _
    exact walks_of walked after (.writing rfl) (List.append_nil _).symm
  · rw [if_neg noticed]
    exact walks_idle there (waiting ▸ .waiting resting)

theorem walks_advance (there : registry.lobby.room? num = some room)
    (here : AsFar num watching pump link.phase) (now : Nat) :
    Walks num watching room pump (link.advance registry now) := by
  obtain ⟨remote, phase⟩ := link
  cases here with
  | writing fetching => exact walks_writing there fetching rfl now
  | waiting resting => exact walks_waiting there resting rfl now
  | ended gone => exact walks_idle there (.ended gone)

theorem walks_receive (there : registry.lobby.room? num = some room)
    (here : AsFar num watching pump link.phase) (bytes : Bytes) (now : Nat) (draw : Draw) :
    Walks num watching room pump (link.receive registry bytes now draw) := by
  obtain ⟨remote, phase⟩ := link
  cases here with
  | writing fetching => exact walks_idle there (.writing fetching)
  | waiting resting =>
    have walked : pump.walk room [.hear] = (room, { pump with phase := .fetching }) := by
      show pump.step room .hear = _
      rw [Pump.step, resting]
    exact walks_of walked there (.writing rfl) (List.append_nil _).symm
  | ended gone => exact walks_idle there (.ended gone)

theorem walks_receiveEnd (there : registry.lobby.room? num = some room)
    (here : AsFar num watching pump link.phase) (now : Nat) :
    Walks num watching room pump (link.receiveEnd registry now) := by
  obtain ⟨remote, phase⟩ := link
  cases here with
  | writing fetching => exact walks_idle there (.writing fetching)
  | waiting resting =>
    have walked : pump.walk room [.hangUp] = Pump.finish room pump := by
      show pump.step room .hangUp = _
      rw [Pump.step, resting]
    exact walks_of walked (Registry.room?_close there pump.watch watching now) (.ended rfl)
      (List.append_nil _).symm
  | ended gone => exact walks_idle there (.ended gone)

theorem isIdle_eq (there : registry.lobby.room? num = some room)
    (here : AsFar num watching pump link.phase) : link.isIdle registry = pump.isIdle room := by
  obtain ⟨remote, phase⟩ := link
  cases here with
  | writing fetching => rw [isIdle, Pump.isIdle, fetching]
  | waiting resting =>
    rw [Pump.isIdle, resting]
    exact congrArg not (isNotified_stream there pump.watch)
  | ended gone => rw [isIdle, Pump.isIdle, gone]

end Link

inductive LinkMove where
  | act (action : Action)
  | advance (now : Nat)
  | receive (bytes : Bytes) (now : Nat) (draw : Draw)
  | receiveEnd (now : Nat)

namespace LinkStep

def goOn (before after : LinkStep) : LinkStep :=
  { after with written := before.written ++ after.written }

def move (num : RoomNum) (here : LinkStep) : LinkMove → LinkStep
  | .act action => { here with registry := here.registry.act num action }
  | .advance now => here.goOn (here.link.advance here.registry now)
  | .receive bytes now draw => here.goOn (here.link.receive here.registry bytes now draw)
  | .receiveEnd now => here.goOn (here.link.receiveEnd here.registry now)

def run (num : RoomNum) (here : LinkStep) (moves : List LinkMove) : LinkStep :=
  moves.foldl (move num) here

/-- A connection is where the task of its stream is, and serves the stream as long as its
response is not over. -/
structure Follows (num : RoomNum) (watching : Option PersonId) (here : LinkStep) (room : Room)
    (pump : Pump) : Prop where
  there : here.registry.lobby.room? num = some room
  far : Link.AsFar num watching pump here.link.phase
  written : pump.written = here.written
  wired : room.Wired
  serves : pump.phase ≠ .ended → pump.Serves room

variable {here : LinkStep} {num : RoomNum} {watching : Option PersonId} {room : Room} {pump : Pump}

theorem Follows.goOn {after : LinkStep} (follows : here.Follows num watching room pump)
    (walks : Link.Walks num watching room pump after) :
    ∃ later next, next.viewer = pump.viewer ∧ (here.goOn after).Follows num watching later next := by
  obtain ⟨steps, there, far, written⟩ := walks
  have goes := Pump.walk_goes follows.wired follows.serves steps
  refine ⟨_, _, goes.viewer, there, far, ?_, goes.tends.wired, goes.serves⟩
  rw [written, follows.written]
  rfl

theorem Follows.move (follows : here.Follows num watching room pump) (move : LinkMove) :
    ∃ later next, next.viewer = pump.viewer ∧
      (here.move num move).Follows num watching later next := by
  cases move with
  | act action =>
    refine ⟨(room.act action).2, pump, rfl, ?_, follows.far, follows.written, ?_, ?_⟩
    · exact Registry.room?_act here.registry num action follows.there
    · exact Room.wired_act follows.wired action
    · intro going
      exact (follows.serves going).act action
  | advance now => exact follows.goOn (Link.walks_advance follows.there follows.far now)
  | receive bytes now draw =>
    exact follows.goOn (Link.walks_receive follows.there follows.far bytes now draw)
  | receiveEnd now => exact follows.goOn (Link.walks_receiveEnd follows.there follows.far now)

theorem Follows.run (follows : here.Follows num watching room pump) (moves : List LinkMove) :
    ∃ later next, next.viewer = pump.viewer ∧
      (here.run num moves).Follows num watching later next := by
  induction moves generalizing here room pump with
  | nil => exact ⟨room, pump, rfl, follows⟩
  | cons move rest ih =>
    obtain ⟨later, next, same, moved⟩ := follows.move move
    obtain ⟨final, task, alike, ran⟩ := ih moved
    exact ⟨final, task, alike.trans same, ran⟩

theorem Follows.delivered (follows : here.Follows num watching room pump)
    (idle : here.link.isIdle here.registry = true) (going : here.link.outcome? = none) :
    ∃ told, pump.Delivered room told := by
  have resting : pump.isIdle room = true :=
    (Link.isIdle_eq follows.there follows.far).symm.trans idle
  have unended : pump.phase ≠ .ended := by
    intro ended
    obtain ⟨written, ⟨remote, phase⟩, registry⟩ := here
    cases follows.far with
    | writing fetching => cases fetching.symm.trans ended
    | waiting waiting => cases waiting.symm.trans ended
    | ended => cases going
  obtain ⟨waiting, unnoticed⟩ := Pump.waiting_of_isIdle resting unended
  exact (follows.serves unended).delivered waiting unnoticed

end LinkStep

/-- A connection that was granted a stream and is idle before its response is over has written
all there is to tell, whatever operations went on in its room between its steps. -/
theorem Registry.Granted.delivered {before registry : Registry} {routed : Routed}
    {lastMessage : Nat} {keyHash : Option Key.Hash} {person : Person} {room : Room}
    (granted : Granted before registry routed lastMessage keyHash person room) (remote : Address)
    (moves : List LinkMove) :
    let here := LinkStep.run person.room ⟨[], ⟨remote, .writing routed⟩, registry⟩ moves
    here.link.isIdle here.registry = true → here.link.outcome? = none →
      ∃ (later : Room) (pump : Pump) (told : List Frame),
        here.registry.lobby.room? person.room = some later ∧
        pump.viewer = ⟨person.id, person.player,
          min lastMessage room.conversation.messages.length, keyHash⟩ ∧
        pump.written = here.written ∧ pump.Delivered later told := by
  intro here idle going
  obtain ⟨response, watching⟩ := routed
  obtain rfl : response = .stream person.room room.nextWatch := granted.response
  have follows : LinkStep.Follows person.room watching
      ⟨[], ⟨remote, .writing ⟨.stream person.room room.nextWatch, watching⟩⟩, registry⟩
      (room.watch person.id person.player lastMessage keyHash).2 {
        watch := room.nextWatch
        viewer := ⟨person.id, person.player,
          min lastMessage room.conversation.messages.length, keyHash⟩ } := by
    constructor
    case there => exact granted.there
    case far => exact .writing rfl
    case written => rfl
    case wired => exact Room.wired_watch granted.wired _ _ _ _
    case serves =>
      intro _
      exact Pump.serves_watch granted.wired granted.consistent granted.inside _ _ _
  obtain ⟨later, pump, same, ran⟩ := follows.run moves
  obtain ⟨told, delivered⟩ := ran.delivered idle going
  exact ⟨later, pump, told, ran.there, same, ran.written, delivered⟩

end TileRoom
