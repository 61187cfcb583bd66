import TileRoom.Proofs.Applying

/-! The main thread at work while the connection goes on speaking. A flush is taken
apart into the steps between which an event may arrive. Every public event is applied
once, in order, and then delivered once; events that wait always have one task that
will apply them. -/

namespace TileRoom

inductive MainPhase where
  | free
  | applying
  | delivering (event : Event)

def MainPhase.undelivered : MainPhase → List Event
  | .delivering event => [event]
  | .free | .applying => []

theorem MainPhase.undelivered_length (phase : MainPhase) : phase.undelivered.length ≤ 1 := by
  cases phase with
  | free | applying => exact Nat.zero_le 1
  | delivering event => exact Nat.le_refl 1

/-- A session with its main thread, and what this thread did so far. -/
structure Threads (label : Type) where
  session : Session label
  taken : List (IdleToken × MainTask) := []
  phase : MainPhase := .free
  applied : List Event := []
  delivered : List Event := []
  heard : List (label × Event) := []

inductive ThreadStep where
  | emit (event : Event)
  | queue
  | advance

def ThreadStep.event? : ThreadStep → Option Event
  | .emit event => some event
  | .queue | .advance => none

def ThreadStep.emitted (steps : List ThreadStep) : List Event :=
  (steps.filterMap ThreadStep.event?).filter Event.isPublic

namespace Threads

variable {label : Type}

def start (connection : Connection) (subscribers : Signal label) : Threads label :=
  { session := { connection, game := some { subscribers } } }

def flushCount (tasks : List (IdleToken × MainTask)) : Nat :=
  tasks.countP fun entry => entry.2 = .applyEvents

/-- The tasks to apply events that were taken and not begun, or wait in the queue. -/
def outstanding (threads : Threads label) : Nat :=
  flushCount threads.taken + flushCount threads.session.idle.waiting

def beginTask (threads : Threads label) : Threads label :=
  match threads.taken with
  | [] =>
      let (taken, idle) := threads.session.idle.takeAll
      { threads with taken, session := { threads.session with idle } }
  | (_, task) :: taken =>
      match task, threads.session.game with
      | .applyEvents, some game =>
          { threads with
            taken
            phase := .applying
            session := { threads.session with game := some game.beginFlush } }
      | _, _ => { threads with taken }

def applySlot (threads : Threads label) : Threads label :=
  match threads.session.game with
  | none => { threads with phase := .free }
  | some game =>
      match game.queue.next? with
      | none =>
          { threads with
            phase := .free
            session := { threads.session with game := some game.endFlush } }
      | some (none, queue) =>
          { threads with session := { threads.session with game := some { game with queue } } }
      | some (some event, queue) =>
          let model := game.model.apply event
          { threads with
            phase := .delivering event
            applied := threads.applied ++ [event]
            session := { threads.session with game := some { game with queue, model } } }

def deliver (threads : Threads label) (event : Event) : Threads label :=
  let told := (threads.session.game.map fun game => game.subscribers.emit event).getD []
  { threads with
    phase := .applying
    delivered := threads.delivered ++ [event]
    heard := threads.heard ++ told }

def advance (threads : Threads label) : Threads label :=
  match threads.phase with
  | .free => threads.beginTask
  | .applying => threads.applySlot
  | .delivering event => threads.deliver event

def step (threads : Threads label) : ThreadStep → Threads label
  | .emit event => { threads with session := threads.session.offer event }
  | .queue =>
      { threads with
        session := { threads.session with idle := (threads.session.idle.push .wake).2 } }
  | .advance => threads.advance

def run (threads : Threads label) (steps : List ThreadStep) : Threads label :=
  steps.foldl step threads

theorem flushCount_nil : flushCount [] = 0 :=
  rfl

theorem flushCount_cons (entry : IdleToken × MainTask) (tasks : List (IdleToken × MainTask)) :
    flushCount (entry :: tasks) = flushCount tasks + if entry.2 = .applyEvents then 1 else 0 := by
  rw [flushCount, List.countP_cons, flushCount]
  simp only [decide_eq_true_eq]

theorem flushCount_push (queue : IdleQueue MainTask) (task : MainTask) :
    flushCount (queue.push task).2.waiting =
      flushCount queue.waiting + if task = .applyEvents then 1 else 0 := by
  rw [flushCount, IdleQueue.push, List.countP_append, List.countP_singleton, flushCount]
  simp only [decide_eq_true_eq]

/-- What holds between any two steps, of a game that heard the public events `emitted`. -/
structure Orderly (subscribers : Signal label) (emitted : List Event) (threads : Threads label)
    (game : Game label) : Prop where
  there : threads.session.game = some game
  audience : game.subscribers = subscribers
  model : game.model = threads.applied.foldl Model.apply {}
  heard : threads.heard = threads.delivered.flatMap subscribers.emit
  applied : threads.applied = threads.delivered ++ threads.phase.undelivered
  order : emitted =
    threads.applied ++ (game.queue.batch ++ game.queue.pending).filterMap EventSlot.event
  resting : threads.phase = .free → game.queue.batch = []
  promised : game.queue.pending ≠ [] → game.queue.flushToken.isSome = true
  owed : threads.outstanding = game.queue.flushToken.isSome.toNat

/-- What the main thread has yet to do, counted so that each thing it does lowers it. -/
def workload (threads : Threads label) (game : Game label) : Nat :=
  3 * threads.session.idle.waiting.length + 2 * threads.taken.length +
    2 * (game.queue.batch.length + game.queue.pending.length) +
    match threads.phase with
    | .free => 0
    | .applying => 1
    | .delivering _ => 2

def Advances (subscribers : Signal label) (emitted : List Event) (threads : Threads label)
    (game : Game label) (next : Threads label) : Prop :=
  ∃ after, Orderly subscribers emitted next after ∧
    (threads.workload game ≠ 0 → next.workload after < threads.workload game)

variable {subscribers : Signal label} {emitted : List Event} {threads : Threads label}
  {game : Game label}

theorem orderly_start (connection : Connection) (subscribers : Signal label) :
    Orderly subscribers [] (start connection subscribers) { subscribers } where
  there := rfl
  audience := rfl
  model := rfl
  heard := rfl
  applied := rfl
  order := rfl
  resting _ := rfl
  promised none := absurd rfl none
  owed := rfl

theorem Orderly.emit (orderly : Orderly subscribers emitted threads game) (event : Event) :
    ∃ after, Orderly subscribers (emitted ++ [event].filter Event.isPublic)
      (threads.step (.emit event)) after := by
  by_cases isPublic : event.isPublic = true
  · have pushed := (Session.pending_push game.queue event).1
    have kept := (Session.pending_push game.queue event).2
    have batch : (game.queue.push event).batch = game.queue.batch := by
      unfold EventQueue.push
      split <;> rfl
    have order : emitted ++ [event].filter Event.isPublic = threads.applied ++
        ((game.queue.push event).batch ++ (game.queue.push event).pending).filterMap
          EventSlot.event := by
      rw [List.filter_cons_of_pos isPublic, List.filter_nil, orderly.order, batch, pushed]
      simp only [List.filterMap_append, List.append_assoc]
      rfl
    cases token : game.queue.flushToken with
    | some known =>
      -- A task that will find the event is on its way.
      have offered : threads.session.offer event = { threads.session with
          game := some { game with queue := game.queue.push event } } := by
        simp only [Session.offer, orderly.there, if_pos isPublic, kept, token]
      refine ⟨{ game with queue := game.queue.push event }, ?_⟩
      rw [step, offered]
      exact { orderly with
        there := rfl
        order
        resting := fun free => batch.trans (orderly.resting free)
        promised := fun _ => by rw [kept, token]; rfl
        owed := by rw [kept]; exact orderly.owed }
    | none =>
      -- The event is the first to wait and queues the task.
      have offered : threads.session.offer event = { threads.session with
          idle := (threads.session.idle.push .applyEvents).2
          game := some { game with queue := { game.queue.push event with
            flushToken := some threads.session.idle.nextToken } } } := by
        simp only [Session.offer, orderly.there, if_pos isPublic, kept, token]
        rfl
      refine ⟨{ game with queue := { game.queue.push event with
        flushToken := some threads.session.idle.nextToken } }, ?_⟩
      have idle : threads.outstanding = 0 := by
        rw [orderly.owed, token]
        rfl
      rw [step, offered]
      exact { orderly with
        there := rfl
        order
        resting := fun free => batch.trans (orderly.resting free)
        promised := fun _ => rfl
        owed := by
          rw [outstanding] at idle
          rw [outstanding, flushCount_push]
          simp only [if_true, Option.isSome_some, Bool.toNat_true]
          omega }
  · have offered : threads.session.offer event = threads.session := by
      simp only [Session.offer, orderly.there, if_neg isPublic]
    refine ⟨game, ?_⟩
    rw [List.filter_cons_of_neg isPublic, List.filter_nil, List.append_nil, step, offered]
    exact orderly

theorem Orderly.queue (orderly : Orderly subscribers emitted threads game) :
    Orderly subscribers emitted (threads.step .queue) game :=
  { orderly with
    owed := by
      rw [← orderly.owed, step, outstanding, flushCount_push]
      rfl }

theorem Orderly.tasked (orderly : Orderly subscribers emitted threads game)
    (free : threads.phase = .free) (none : threads.outstanding = 0) :
    game.queue.batch = [] ∧ game.queue.pending = [] := by
  refine ⟨orderly.resting free, Classical.byContradiction fun some => ?_⟩
  have owed := orderly.owed
  rw [none, orderly.promised some] at owed
  cases owed

theorem Orderly.beginTask (orderly : Orderly subscribers emitted threads game)
    (free : threads.phase = .free) :
    Advances subscribers emitted threads game threads.beginTask := by
  have owed := orderly.owed
  rw [outstanding] at owed
  cases taken : threads.taken with
  | nil =>
    have taskless := orderly.tasked free
    rw [outstanding, taken] at taskless
    rw [taken, flushCount_nil, Nat.zero_add] at owed
    refine ⟨game, ?_, ?_⟩
    · simp only [Threads.beginTask, taken]
      exact { orderly with owed }
    · simp only [workload, Threads.beginTask, taken, free, IdleQueue.takeAll, List.length_nil]
      intro busy
      cases waiting : threads.session.idle.waiting with
      | nil =>
        rw [waiting] at taskless busy
        rw [(taskless rfl).1, (taskless rfl).2] at busy
        exact absurd rfl busy
      | cons entry rest =>
        rw [List.length_cons]
        omega
  | cons entry rest =>
    rw [taken, flushCount_cons] at owed
    cases entry with
    | mk token task =>
    cases task with
    | wake =>
      simp only [reduceCtorEq, if_false, Nat.add_zero] at owed
      refine ⟨game, ?_, fun _ => ?_⟩
      · simp only [Threads.beginTask, taken]
        exact { orderly with owed }
      · simp only [workload, Threads.beginTask, taken, free, List.length_cons]
        omega
    | applyEvents =>
      rw [if_pos rfl] at owed
      refine ⟨game.beginFlush, ?_, fun _ => ?_⟩
      · simp only [Threads.beginTask, taken, orderly.there]
        exact { orderly with
          there := rfl
          applied := by rw [orderly.applied, free]; rfl
          order := by
            rw [orderly.order, orderly.resting free]
            simp only [Game.beginFlush, EventQueue.beginFlush, List.nil_append, List.append_nil]
          resting := by
            intro free
            cases free
          promised := fun none => absurd rfl none
          owed := by
            -- This task is the only one that is outstanding.
            have one := Bool.toNat_le game.queue.flushToken.isSome
            show flushCount rest + flushCount threads.session.idle.waiting = 0
            omega }
      · simp only [workload, Threads.beginTask, taken, orderly.there, free, Game.beginFlush,
          EventQueue.beginFlush, List.length_cons, List.length_nil]
        omega

theorem Orderly.applySlot (orderly : Orderly subscribers emitted threads game)
    (applying : threads.phase = .applying) :
    Advances subscribers emitted threads game threads.applySlot := by
  have settled : threads.applied = threads.delivered := by
    rw [orderly.applied, applying, MainPhase.undelivered, List.append_nil]
  cases batch : game.queue.batch with
  | nil =>
    refine ⟨game.endFlush, ?_, fun _ => ?_⟩
    · simp only [Threads.applySlot, orderly.there, EventQueue.next?, batch]
      exact { orderly with
        there := rfl
        applied := by rw [settled]; exact (List.append_nil _).symm
        resting := fun _ => batch }
    · simp only [workload, Threads.applySlot, orderly.there, EventQueue.next?, batch, applying,
        Game.endFlush, EventQueue.endFlush]
      omega
  | cons slot rest =>
    have order := orderly.order
    rw [batch, List.cons_append] at order
    cases slot with
    | mk event =>
    cases event with
    | none =>
      refine ⟨{ game with queue := { game.queue with
        batch := rest
        spent := { event := none } :: game.queue.spent } }, ?_, fun _ => ?_⟩
      · simp only [Threads.applySlot, orderly.there, EventQueue.next?, batch]
        exact { orderly with
          there := rfl
          order
          resting := by
            intro free
            rw [applying] at free
            cases free }
      · simp only [workload, Threads.applySlot, orderly.there, EventQueue.next?, batch, applying,
          List.length_cons]
        omega
    | some event =>
      refine ⟨{ game with
        model := game.model.apply event
        queue := { game.queue with
          batch := rest
          spent := { event := none } :: game.queue.spent } }, ?_, fun _ => ?_⟩
      · simp only [Threads.applySlot, orderly.there, EventQueue.next?, batch]
        exact { orderly with
          there := rfl
          model := by rw [List.foldl_append, ← orderly.model]; rfl
          applied := by rw [settled]; rfl
          order := by
            rw [order, List.append_assoc]
            rfl
          resting := by
            intro free
            cases free }
      · simp only [workload, Threads.applySlot, orderly.there, EventQueue.next?, batch, applying,
          List.length_cons]
        omega

theorem Orderly.deliver (orderly : Orderly subscribers emitted threads game) {event : Event}
    (delivering : threads.phase = .delivering event) :
    Advances subscribers emitted threads game (threads.deliver event) := by
  refine ⟨game, { orderly with heard := ?_, applied := ?_, resting := ?_ }, fun _ => ?_⟩
  · simp only [Threads.deliver, orderly.there, Option.map_some, Option.getD_some]
    rw [orderly.audience, orderly.heard, List.flatMap_append, List.flatMap_singleton]
  · rw [Threads.deliver, orderly.applied, delivering]
    exact (List.append_nil _).symm
  · intro free
    cases free
  · simp only [workload, Threads.deliver, delivering]
    omega

theorem Orderly.advance (orderly : Orderly subscribers emitted threads game) :
    Advances subscribers emitted threads game threads.advance := by
  unfold Threads.advance
  cases phase : threads.phase with
  | free => exact orderly.beginTask phase
  | applying => exact orderly.applySlot phase
  | delivering event => exact orderly.deliver phase

theorem Orderly.run (orderly : Orderly subscribers emitted threads game) (steps : List ThreadStep) :
    ∃ after, Orderly subscribers (emitted ++ ThreadStep.emitted steps) (threads.run steps) after := by
  induction steps generalizing emitted threads game with
  | nil =>
    refine ⟨game, ?_⟩
    rwa [show ThreadStep.emitted [] = [] from rfl, List.append_nil]
  | cons step rest ih =>
    cases step with
    | emit event =>
      obtain ⟨next, orderly⟩ := orderly.emit event
      have later := ih orderly
      rw [List.append_assoc, ThreadStep.emitted, ← List.filter_append] at later
      exact later
    | queue => exact ih orderly.queue
    | advance =>
      obtain ⟨next, orderly, _⟩ := orderly.advance
      exact ih orderly

theorem Orderly.delivered_all (orderly : Orderly subscribers emitted threads game)
    (none : threads.outstanding = 0) (free : threads.phase = .free) :
    threads.delivered = emitted := by
  have empty := orderly.tasked free none
  rw [orderly.order, empty.1, empty.2, orderly.applied, free]
  simp only [MainPhase.undelivered, List.append_nil, List.filterMap_nil]

theorem Orderly.catchesUp (orderly : Orderly subscribers emitted threads game) :
    ∃ count, (threads.run (List.replicate count .advance)).delivered = emitted := by
  generalize load : threads.workload game = work
  induction work using Nat.strongRecOn generalizing threads game with
  | ind work ih =>
    by_cases done : work = 0
    · rw [workload] at load
      have free : threads.phase = .free := by
        cases phase : threads.phase with
        | free => rfl
        | applying => simp only [phase] at load; omega
        | delivering event => simp only [phase] at load; omega
      have taken : threads.taken = [] := List.eq_nil_of_length_eq_zero (by omega)
      have waiting : threads.session.idle.waiting = [] := List.eq_nil_of_length_eq_zero (by omega)
      exact ⟨0, orderly.delivered_all (by rw [outstanding, taken, waiting]; rfl) free⟩
    · obtain ⟨after, next, less⟩ := orderly.advance
      rw [load] at less
      obtain ⟨count, caught⟩ := ih _ (less done) next rfl
      exact ⟨count + 1, caught⟩

def Leads (threads after : Threads label) : Prop :=
  ∃ count, threads.run (List.replicate count .advance) = after

theorem Leads.refl (threads : Threads label) : threads.Leads threads :=
  ⟨0, rfl⟩

theorem Leads.of_advance {threads after : Threads label} (later : threads.advance.Leads after) :
    threads.Leads after := by
  obtain ⟨count, reached⟩ := later
  exact ⟨count + 1, reached⟩

theorem Leads.trans {threads next after : Threads label} (first : threads.Leads next)
    (later : next.Leads after) : threads.Leads after := by
  obtain ⟨count, reached⟩ := first
  obtain ⟨more, ended⟩ := later
  refine ⟨count + more, ?_⟩
  rw [← ended, ← reached, run, run, run, ← List.foldl_append, List.replicate_append_replicate]

theorem leads_applyMany (count : Nat) (session : Session label) (game : Game label)
    (size : game.queue.batch.length = count) (taken : List (IdleToken × MainTask))
    (applied delivered : List Event) (heard : List (label × Event)) :
    (game.applyMany count).2.queue.batch = [] ∧ ∃ applied' delivered',
      Leads ⟨{ session with game := some game }, taken, .applying, applied, delivered, heard⟩
        ⟨{ session with game := some (game.applyMany count).2 }, taken, .applying, applied',
          delivered', heard ++ (game.applyMany count).1⟩ := by
  induction count generalizing game applied delivered heard with
  | zero =>
    refine ⟨List.eq_nil_of_length_eq_zero size, applied, delivered, ?_⟩
    rw [Game.applyMany, List.append_nil]
    exact Leads.refl _
  | succ count ih =>
    cases batch : game.queue.batch with
    | nil => rw [batch] at size; cases size
    | cons slot rest =>
    rw [batch, List.length_cons] at size
    rw [Game.applyMany]
    cases slot with
    | mk event =>
    cases event with
    | none =>
      obtain ⟨emptied, applied', delivered', leads⟩ := ih { game with queue := { game.queue with
        batch := rest
        spent := { event := none } :: game.queue.spent } } (Nat.succ.inj size) applied delivered heard
      simp only [Game.applyNext, EventQueue.next?, batch, List.nil_append]
      refine ⟨emptied, applied', delivered', Leads.of_advance ?_⟩
      simpa only [Threads.advance, Threads.applySlot, EventQueue.next?, batch] using leads
    | some event =>
      obtain ⟨emptied, applied', delivered', leads⟩ := ih { game with
        model := game.model.apply event
        queue := { game.queue with
          batch := rest
          spent := { event := none } :: game.queue.spent } } (Nat.succ.inj size) (applied ++ [event])
        (delivered ++ [event]) (heard ++ game.subscribers.emit event)
      simp only [Game.applyNext, EventQueue.next?, batch]
      rw [List.append_assoc] at leads
      refine ⟨emptied, applied', delivered', Leads.of_advance (Leads.of_advance ?_)⟩
      simpa only [Threads.advance, Threads.applySlot, Threads.deliver, EventQueue.next?, batch,
        Option.map_some, Option.getD_some] using leads

theorem leads_flush (session : Session label) (game : Game label)
    (taken : List (IdleToken × MainTask)) (applied delivered : List Event)
    (heard : List (label × Event)) :
    ∃ applied' delivered',
      Leads ⟨{ session with game := some game.beginFlush }, taken, .applying, applied, delivered,
          heard⟩
        ⟨{ session with game := some game.flush.2 }, taken, .free, applied', delivered',
          heard ++ game.flush.1⟩ := by
  obtain ⟨emptied, applied', delivered', leads⟩ := leads_applyMany _ session game.beginFlush rfl
    taken applied delivered heard
  refine ⟨applied', delivered', leads.trans (Leads.of_advance ?_)⟩
  simp only [Threads.advance, Threads.applySlot, EventQueue.next?, emptied]
  exact Leads.refl _

theorem leads_runTasks (tasks : List (IdleToken × MainTask)) (session : Session label)
    (applied delivered : List Event) (heard : List (label × Event)) :
    ∃ applied' delivered', Leads ⟨session, tasks, .free, applied, delivered, heard⟩
      ⟨(session.runTasks tasks).2, [], .free, applied', delivered',
        heard ++ (session.runTasks tasks).1⟩ := by
  induction tasks generalizing session applied delivered heard with
  | nil =>
    refine ⟨applied, delivered, ?_⟩
    rw [Session.runTasks, List.append_nil]
    exact Leads.refl _
  | cons entry rest ih =>
    obtain ⟨token, task⟩ := entry
    have skipped : session.runTask task = ([], session) →
        Threads.advance ⟨session, (token, task) :: rest, .free, applied, delivered, heard⟩ =
          ⟨session, rest, .free, applied, delivered, heard⟩ →
        ∃ applied' delivered',
          Leads ⟨session, (token, task) :: rest, .free, applied, delivered, heard⟩
            ⟨(session.runTasks ((token, task) :: rest)).2, [], .free, applied', delivered',
              heard ++ (session.runTasks ((token, task) :: rest)).1⟩ := by
      intro nothing advanced
      obtain ⟨applied', delivered', leads⟩ := ih session applied delivered heard
      rw [← advanced] at leads
      refine ⟨applied', delivered', ?_⟩
      simp only [Session.runTasks, nothing, List.nil_append]
      exact leads.of_advance
    cases task with
    | wake => exact skipped rfl rfl
    | applyEvents =>
      cases there : session.game with
      | none =>
        apply skipped
        · simp only [Session.runTask, there]
        · simp only [Threads.advance, Threads.beginTask, there]
      | some game =>
        obtain ⟨applied₁, delivered₁, flushed⟩ := leads_flush session game rest applied delivered
          heard
        obtain ⟨applied', delivered', leads⟩ := ih { session with game := some game.flush.2 }
          applied₁ delivered₁ (heard ++ game.flush.1)
        rw [List.append_assoc] at leads
        refine ⟨applied', delivered', Leads.of_advance ?_⟩
        simp only [Session.runTasks, Session.runTask, Threads.advance, Threads.beginTask, there]
        exact flushed.trans leads

/-- A flush of the session is what the main thread does when nothing happens in
between. -/
theorem flush_leads (session : Session label) :
    ∃ applied delivered, Leads { session } ⟨session.flush.after, [], .free, applied, delivered,
      session.flush.delivered⟩ := by
  obtain ⟨applied, delivered, leads⟩ := leads_runTasks session.idle.waiting
    { session with idle := session.idle.takeAll.2 } [] [] []
  rw [List.nil_append] at leads
  exact ⟨applied, delivered, leads.of_advance⟩

end Threads

/-- Events arrive between any two steps of the main thread, and so do other tasks. -/
theorem events_applied_in_turn {label : Type} (connection : Connection) (subscribers : Signal label)
    (steps : List ThreadStep) :
    let threads := (Threads.start connection subscribers).run steps
    let emitted := ThreadStep.emitted steps
    threads.delivered <+: threads.applied ∧ threads.applied <+: emitted ∧
      threads.applied.length ≤ threads.delivered.length + 1 ∧
      threads.heard = threads.delivered.flatMap subscribers.emit ∧
      threads.outstanding ≤ 1 ∧
      (∃ game, threads.session.game = some game ∧
        game.model = threads.applied.foldl Model.apply {} ∧
        (game.queue.pending ≠ [] → threads.outstanding = 1)) ∧
      (threads.outstanding = 0 → threads.phase = .free → threads.delivered = emitted) ∧
      ∃ count, (threads.run (List.replicate count .advance)).delivered = emitted := by
  intro threads emitted
  obtain ⟨game, orderly⟩ : ∃ game, Threads.Orderly subscribers emitted threads game :=
    (Threads.orderly_start connection subscribers).run steps
  clear_value threads emitted
  have one := Bool.toNat_le game.queue.flushToken.isSome
  have late := threads.phase.undelivered_length
  refine ⟨?_, ?_, ?_, orderly.heard, ?_, ⟨game, orderly.there, orderly.model, ?_⟩, ?_, ?_⟩
  · exact ⟨_, orderly.applied.symm⟩
  · exact ⟨_, orderly.order.symm⟩
  · rw [orderly.applied, List.length_append]
    omega
  · rw [orderly.owed]
    exact one
  · intro some
    rw [orderly.owed, orderly.promised some]
    rfl
  · exact orderly.delivered_all
  · exact orderly.catchesUp

end TileRoom
