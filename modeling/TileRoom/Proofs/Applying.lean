import TileRoom.Client.Session
import TileRoom.Proofs.Learning

/-! A flush applies every public event that reached the game, in order and once. Events
that wait always have a task that will apply them. -/

namespace TileRoom

def EventSlot.full (event : Event) : EventSlot :=
  { event := some event }

namespace Game

variable {label : Type}

theorem applyMany_full (events : List Event) (game : Game label)
    (batch : game.queue.batch = events.map .full) :
    let after := (applyMany events.length game).2
    after.model = events.foldl Model.apply game.model ∧ after.queue.batch = [] ∧
      after.queue.pending = game.queue.pending ∧ after.queue.flushToken = game.queue.flushToken := by
  induction events generalizing game with
  | nil => exact ⟨rfl, batch, rfl, rfl⟩
  | cons event rest ih =>
    have next : (game.applyNext).2 = { game with
        model := game.model.apply event
        queue := { game.queue with
          batch := rest.map .full
          spent := { event := none } :: game.queue.spent } } := by
      simp only [applyNext, EventQueue.next?, batch, List.map_cons, EventSlot.full]
    have later := ih (game.applyNext).2 (by rw [next])
    rw [next] at later
    rw [List.length_cons, applyMany]
    simp only [next]
    exact later

theorem flush_full (events : List Event) (game : Game label)
    (pending : game.queue.pending = events.map .full) :
    game.flush.2.model = events.foldl Model.apply game.model ∧ game.flush.2.queue.batch = [] ∧
      game.flush.2.queue.pending = [] ∧ game.flush.2.queue.flushToken = none := by
  have applied := applyMany_full events game.beginFlush pending
  have length : game.beginFlush.queue.batch.length = events.length := by
    rw [show game.beginFlush.queue.batch = game.queue.pending from rfl, pending, List.length_map]
  unfold flush
  simp only [length]
  exact applied

end Game

theorem Model.view_nothing : ({} : Model).view = {} :=
  congrArg (View.mk none (List.replicate visiblePlayers {}) .nobody none)
    (funext fun num => by rfl)

namespace Session

variable {label : Type}

/-- The public events of `heard` were applied to a model or wait to be, in order. -/
structure Applies (session : Session label) (start : Model) (heard : List Event) : Prop where
  game : ∃ game done waiting, session.game = some game ∧
    heard.filter Event.isPublic = done ++ waiting ∧ game.model = done.foldl Model.apply start ∧
    game.queue.pending = waiting.map .full ∧ (waiting ≠ [] → game.queue.flushToken.isSome = true) ∧
    (game.queue.flushToken.isSome = true → ∃ token, (token, MainTask.applyEvents) ∈ session.idle.waiting)

theorem pending_push (queue : EventQueue) (event : Event) :
    (queue.push event).pending = queue.pending ++ [.full event] ∧
      (queue.push event).flushToken = queue.flushToken := by
  unfold EventQueue.push
  split <;> exact ⟨rfl, rfl⟩

theorem Applies.offer {session : Session label} {start : Model} {heard : List Event}
    (applies : session.Applies start heard) (event : Event) :
    (session.offer event).Applies start (heard ++ [event]) := by
  obtain ⟨game, done, waiting, there, split, model, pending, token, task⟩ := applies.game
  unfold Session.offer
  rw [there]
  dsimp only
  by_cases isPublic : event.isPublic = true
  · have news : (heard ++ [event]).filter Event.isPublic = done ++ (waiting ++ [event]) := by
      rw [List.filter_append, split, List.filter_cons_of_pos isPublic, List.filter_nil, List.append_assoc]
    obtain ⟨pushed, kept⟩ := pending_push game.queue event
    have filled : (game.queue.push event).pending = (waiting ++ [event]).map .full := by
      rw [pushed, pending, List.map_append]
      rfl
    rw [if_pos isPublic]
    split
    · rename_i known found
      rw [kept] at found
      exact ⟨_, done, waiting ++ [event], rfl, news, model, filled, fun _ => by rw [kept, found]; rfl,
        fun some => task (by rw [found]; rfl)⟩
    · exact ⟨_, done, waiting ++ [event], rfl, news, model, filled, fun _ => rfl,
        fun _ => ⟨session.idle.nextToken, List.mem_append_right _ (List.mem_singleton_self _)⟩⟩
  · rw [if_neg isPublic]
    refine ⟨game, done, waiting, there, ?_, model, pending, token, task⟩
    rw [List.filter_append, split, List.filter_cons_of_neg isPublic, List.filter_nil, List.append_nil]

theorem Applies.foldl_offer {session : Session label} {start : Model} {heard : List Event}
    (applies : session.Applies start heard) (events : List Event) :
    (events.foldl Session.offer session).Applies start (heard ++ events) := by
  induction events generalizing session heard with
  | nil => rwa [List.append_nil]
  | cons event rest ih =>
    have later := ih (applies.offer event)
    rwa [List.append_assoc] at later

theorem Applies.hear {session : Session label} {start : Model} {heard : List Event}
    (applies : session.Applies start heard) (news : Heard) :
    (session.hear news).Applies start (heard ++ news.events) := by
  have still : Session.Applies { session with connection := news.connection } start heard := ⟨applies.game⟩
  exact still.foldl_offer news.events

theorem connection_foldl_offer (events : List Event) (session : Session label) :
    (events.foldl Session.offer session).connection = session.connection := by
  induction events generalizing session with
  | nil => rfl
  | cons event rest ih =>
    have same : (session.offer event).connection = session.connection := by
      unfold Session.offer
      split
      · rfl
      · dsimp only
        split
        · split <;> rfl
        · rfl
    rw [List.foldl_cons, ih, same]

theorem connection_hear (session : Session label) (news : Heard) :
    (session.hear news).connection = news.connection :=
  connection_foldl_offer news.events _

theorem runTasks_spec (tasks : List (IdleToken × MainTask)) (session : Session label) (game : Game label)
    (there : session.game = some game) (waiting : List Event)
    (pending : game.queue.pending = waiting.map .full) :
    (session.runTasks tasks).2.idle = session.idle ∧
      (session.runTasks tasks).2.connection = session.connection ∧
      ∃ after, (session.runTasks tasks).2.game = some after ∧
        (after = game ∧ (∀ token, (token, MainTask.applyEvents) ∉ tasks) ∨
          after.model = waiting.foldl Model.apply game.model ∧ after.queue.pending = [] ∧
            after.queue.flushToken = none) := by
  induction tasks generalizing session game waiting with
  | nil => exact ⟨rfl, rfl, game, there, Or.inl ⟨rfl, by simp⟩⟩
  | cons entry rest ih =>
    obtain ⟨token, task⟩ := entry
    rw [runTasks]
    cases task with
    | wake =>
      obtain ⟨idle, connection, after, found, either⟩ := ih session game there waiting pending
      refine ⟨idle, connection, after, found, either.imp_left fun same => ⟨same.1, ?_⟩⟩
      intro other
      simpa using same.2 other
    | applyEvents =>
      obtain ⟨model, _, emptied, token⟩ := game.flush_full waiting pending
      have ran : (session.runTask .applyEvents).2 = { session with game := some game.flush.2 } := by
        rw [runTask, there]
      simp only [ran]
      obtain ⟨idle, connection, after, found, either⟩ := ih { session with game := some game.flush.2 }
        game.flush.2 rfl [] emptied
      refine ⟨idle, connection, after, found, Or.inr ?_⟩
      rcases either with ⟨rfl, _⟩ | ⟨same, others⟩
      · exact ⟨model, emptied, token⟩
      · exact ⟨same.trans model, others⟩

theorem Applies.flush {session : Session label} {start : Model} {heard : List Event}
    (applies : session.Applies start heard) :
    session.flush.after.Applies start heard ∧ session.flush.after.connection = session.connection ∧
      ∃ game, session.flush.after.game = some game ∧
        game.model = (heard.filter Event.isPublic).foldl Model.apply start := by
  obtain ⟨game, done, waiting, there, split, model, pending, token, task⟩ := applies.game
  obtain ⟨_, connection, after, found, either⟩ := runTasks_spec session.idle.waiting
    { session with idle := session.idle.takeAll.2 } game there waiting pending
  have applied : after.model = (heard.filter Event.isPublic).foldl Model.apply start ∧
      after.queue.pending = [] ∧ (after.queue.flushToken.isSome = true → False) := by
    rw [split, List.foldl_append, ← model]
    rcases either with ⟨rfl, none⟩ | ⟨same, emptied, given⟩
    · have idle : waiting = [] := Classical.byContradiction fun some => by
        obtain ⟨taken, known⟩ := task (token some)
        exact none taken known
      subst idle
      refine ⟨rfl, pending, ?_⟩
      intro given
      obtain ⟨taken, known⟩ := task given
      exact none taken known
    · exact ⟨same, emptied, fun given' => by rw [given] at given'; cases given'⟩
  refine ⟨⟨after, heard.filter Event.isPublic, [], found, (List.append_nil _).symm, applied.1, applied.2.1,
    fun none => absurd rfl none, fun given => (applied.2.2 given).elim⟩, connection, after, found, applied.1⟩

theorem applies_ofNames (room name : String) : (ofNames room name : Session label).Applies {} [] :=
  ⟨⟨{}, [], [], rfl, rfl, rfl, rfl, fun none => absurd rfl none, fun given => nomatch given⟩⟩

/-- The view a flush leaves shows every event that was heard. -/
theorem view_of_public (events : List Event) (start : Model) (sound : start.tiles.Sound) :
    ((events.filter Event.isPublic).foldl Model.apply start).view = events.foldl View.see start.view := by
  rw [(Model.view_foldl _ sound).2]
  generalize start.view = view
  induction events generalizing view with
  | nil => rfl
  | cons event rest ih =>
    by_cases isPublic : event.isPublic = true
    · rw [List.filter_cons_of_pos isPublic, List.foldl_cons, List.foldl_cons, ih]
    · rw [List.filter_cons_of_neg isPublic, List.foldl_cons, ih]
      cases event <;> first | rfl | exact absurd rfl isPublic

end Session

end TileRoom
