import Mathlib.Order.Bounds.Basic
import Mathlib.Data.List.Induction
import TileRoom.Proofs.Flushing

/-! The slots in which events wait for a game. A slot that was made is in use or free whatever the
connection and the main thread do, a free one is empty, and a new one is made only when more
events are in use than ever before. -/

namespace TileRoom

namespace EventQueue

def inUse (queue : EventQueue) : Nat :=
  queue.pending.length + (queue.batch.length + queue.spent.length)

/-- Every slot is in use or free, and those whose event was taken are empty. -/
structure Accounted (queue : EventQueue) : Prop where
  total : queue.allocated = queue.inUse + queue.freed.length
  emptied : ∀ slot ∈ queue.spent ++ queue.freed, slot.event = none

def Resting (queue : EventQueue) : Prop :=
  queue.batch = [] ∧ queue.spent = []

/-- What a step of a queue leads to: new slots are made only for more events than ever before. -/
structure Goes (queue next : EventQueue) : Prop where
  accounted : next.Accounted
  peak : next.allocated = max queue.allocated next.inUse

variable {queue next : EventQueue}

theorem Accounted.inUse_le (accounted : queue.Accounted) : queue.inUse ≤ queue.allocated := by
  rw [accounted.total]
  exact Nat.le_add_right _ _

theorem Accounted.goes (accounted : queue.Accounted) (later : next.Accounted)
    (same : next.allocated = queue.allocated) (less : next.inUse ≤ queue.inUse) : queue.Goes next := by
  refine ⟨later, ?_⟩
  rw [same, Nat.max_eq_left (less.trans accounted.inUse_le)]

theorem Goes.withToken (goes : queue.Goes next) {flushToken : Option IdleToken} :
    queue.Goes { next with flushToken } :=
  ⟨⟨goes.accounted.total, goes.accounted.emptied⟩, goes.peak⟩

theorem Accounted.push (accounted : queue.Accounted) (event : Event) : queue.Goes (queue.push event) := by
  have total := accounted.total
  have emptied := accounted.emptied
  unfold EventQueue.push
  split
  next slot freed free =>
    rw [free] at total emptied
    rw [List.length_cons] at total
    refine ⟨⟨?_, fun slot member => emptied slot ?_⟩, ?_⟩
    · simp only [inUse, List.length_append, List.length_singleton] at total ⊢
      omega
    · rw [List.mem_append] at member ⊢
      exact member.imp_right (List.mem_cons_of_mem _)
    · simp only [inUse, List.length_append, List.length_singleton] at total ⊢
      omega
  next none =>
    rw [none] at total
    refine ⟨⟨?_, emptied⟩, ?_⟩
    all_goals
      simp only [inUse, none, List.length_append, List.length_singleton, List.length_nil] at total ⊢
      omega

theorem Accounted.beginFlush (accounted : queue.Accounted) (resting : queue.Resting) : queue.Goes queue.beginFlush := by
  have same : queue.beginFlush.inUse = queue.inUse := by
    simp only [inUse, EventQueue.beginFlush, resting.1, List.length_nil]
    omega
  refine accounted.goes ⟨?_, accounted.emptied⟩ rfl (Nat.le_of_eq same)
  rw [same]
  exact accounted.total

theorem Accounted.next? (accounted : queue.Accounted) {event : Option Event}
    (taken : queue.next? = some (event, next)) : queue.Goes next := by
  unfold EventQueue.next? at taken
  split at taken
  next => cases taken
  next slot batch full =>
    cases taken
    have same : inUse { queue with batch, spent := { slot with event := none } :: queue.spent } = queue.inUse := by
      simp only [inUse, full, List.length_cons]
      omega
    refine accounted.goes ⟨?_, ?_⟩ rfl (Nat.le_of_eq same)
    · rw [same]
      exact accounted.total
    · intro other member
      rcases List.mem_cons.1 member with rfl | old
      · rfl
      · exact accounted.emptied other old

theorem Accounted.endFlush (accounted : queue.Accounted) (empty : queue.batch = []) : queue.Goes queue.endFlush := by
  have total := accounted.total
  simp only [inUse, empty, List.length_nil] at total
  refine accounted.goes ⟨?_, accounted.emptied⟩ rfl ?_
  all_goals
    simp only [inUse, EventQueue.endFlush, empty, List.length_append, List.length_nil]
    omega

end EventQueue

namespace Threads

variable {label : Type} {threads : Threads label} {queue : EventQueue}

def queue? (threads : Threads label) : Option EventQueue :=
  threads.session.game.map (·.queue)

structure Stocked (threads : Threads label) (queue : EventQueue) : Prop where
  there : threads.queue? = some queue
  accounted : queue.Accounted
  resting : threads.phase = .free → queue.Resting

def Restocks (queue : EventQueue) (after : Threads label) : Prop :=
  ∃ next, after.Stocked next ∧ next.allocated = max queue.allocated next.inUse

theorem Stocked.same (stocked : threads.Stocked queue) {after : Threads label} (there : after.queue? = threads.queue?)
    (resting : after.phase = .free → threads.phase = .free) : Restocks queue after :=
  ⟨queue, ⟨there.trans stocked.there, stocked.accounted, fun free => stocked.resting (resting free)⟩,
    (Nat.max_eq_left stocked.accounted.inUse_le).symm⟩

theorem restocks_of {next : EventQueue} {after : Threads label} (goes : queue.Goes next)
    (there : after.queue? = some next) (resting : after.phase = .free → next.Resting) : Restocks queue after :=
  ⟨next, ⟨there, goes.accounted, resting⟩, goes.peak⟩

theorem Stocked.emit (stocked : threads.Stocked queue) (event : Event) :
    Restocks queue (threads.step (.emit event)) := by
  obtain ⟨game, there, rfl⟩ := Option.map_eq_some_iff.1 stocked.there
  by_cases isPublic : event.isPublic = true
  · have goes := stocked.accounted.push event
    have still (free : threads.phase = .free) : (game.queue.push event).Resting := by
      unfold EventQueue.push
      split <;> exact stocked.resting free
    cases token : (game.queue.push event).flushToken with
    | some known =>
      have offered : (threads.step (.emit event)).queue? = some (game.queue.push event) := by
        simp only [queue?, step, Session.offer, there, if_pos isPublic, token, Option.map_some]
      exact restocks_of goes offered still
    | none =>
      have offered : (threads.step (.emit event)).queue? =
          some { game.queue.push event with flushToken := some threads.session.idle.nextToken } := by
        simp only [queue?, step, Session.offer, there, if_pos isPublic, token, Option.map_some, IdleQueue.push]
      exact restocks_of goes.withToken offered still
  · have offered : (threads.step (.emit event)).queue? = threads.queue? := by
      simp only [queue?, step, Session.offer, there, if_neg isPublic]
    exact stocked.same offered id

theorem Stocked.beginTask (stocked : threads.Stocked queue) (free : threads.phase = .free) :
    Restocks queue threads.beginTask := by
  unfold Threads.beginTask
  split
  next => exact stocked.same rfl id
  next entry task taken tasks =>
    split
    next game there =>
      obtain ⟨_, found, rfl⟩ := Option.map_eq_some_iff.1 stocked.there
      obtain rfl := Option.some.inj (there.symm.trans found)
      exact restocks_of (stocked.accounted.beginFlush (stocked.resting free)) rfl nofun
    next => exact stocked.same rfl id

theorem Stocked.applySlot (stocked : threads.Stocked queue) (applying : threads.phase = .applying) :
    Restocks queue threads.applySlot := by
  obtain ⟨game, there, rfl⟩ := Option.map_eq_some_iff.1 stocked.there
  have busy {phase : MainPhase} (same : threads.phase = phase) (free : phase = .free) : False := by
    rw [applying] at same
    rw [← same] at free
    cases free
  unfold Threads.applySlot
  rw [there]
  dsimp only
  split
  next none =>
    have ended : game.queue.batch = [] := by
      unfold EventQueue.next? at none
      split at none
      next empty => exact empty
      next => cases none
    exact restocks_of (stocked.accounted.endFlush ended) rfl fun _ => ⟨ended, rfl⟩
  next next taken => exact restocks_of (stocked.accounted.next? taken) rfl fun free => (busy rfl free).elim
  next event next taken => exact restocks_of (stocked.accounted.next? taken) rfl nofun

theorem Stocked.step (stocked : threads.Stocked queue) (step : ThreadStep) : Restocks queue (threads.step step) := by
  cases step with
  | emit event => exact stocked.emit event
  | queue => exact stocked.same rfl id
  | advance =>
    change Restocks queue threads.advance
    unfold Threads.advance
    cases phase : threads.phase with
    | free => exact stocked.beginTask phase
    | applying => exact stocked.applySlot phase
    | delivering event => exact stocked.same rfl nofun

/-- So many slots were in use at some moment of a run, perhaps its end. -/
def Used (threads : Threads label) (steps : List ThreadStep) (count : Nat) : Prop :=
  ∃ earlier queue, earlier <+: steps ∧ (threads.run earlier).queue? = some queue ∧ queue.inUse = count

theorem used_nil {count : Nat} (there : threads.queue? = some queue) : threads.Used [] count ↔ count = queue.inUse := by
  constructor
  · rintro ⟨earlier, found, first, known, rfl⟩
    rw [List.prefix_nil.1 first] at known
    rw [Option.some.inj (known.symm.trans there)]
  · rintro rfl
    exact ⟨[], queue, List.prefix_rfl, there, rfl⟩

theorem used_concat {steps : List ThreadStep} {last : ThreadStep} {count : Nat}
    (there : (threads.run (steps ++ [last])).queue? = some queue) :
    threads.Used (steps ++ [last]) count ↔ count = queue.inUse ∨ threads.Used steps count := by
  constructor
  · rintro ⟨earlier, found, before, known, rfl⟩
    rcases List.prefix_concat_iff.1 before with rfl | before
    · exact Or.inl (by rw [Option.some.inj (known.symm.trans there)])
    · exact Or.inr ⟨earlier, found, before, known, rfl⟩
  · rintro (rfl | ⟨earlier, found, before, known, rfl⟩)
    · exact ⟨_, queue, List.prefix_rfl, there, rfl⟩
    · exact ⟨earlier, found, before.trans (List.prefix_append _ _), known, rfl⟩

theorem Stocked.run (stocked : threads.Stocked queue) (full : queue.allocated = queue.inUse) (steps : List ThreadStep) :
    ∃ after, (threads.run steps).Stocked after ∧ IsGreatest {count | threads.Used steps count} after.allocated := by
  induction steps using List.reverseRecOn with
  | nil =>
    refine ⟨queue, stocked, ?_⟩
    have only : {count | threads.Used [] count} = {queue.inUse} := by
      ext count
      exact used_nil stocked.there
    rw [only, full]
    exact isGreatest_singleton
  | append_singleton earlier last ih =>
    obtain ⟨before, kept, greatest⟩ := ih
    obtain ⟨after, next, peak⟩ := kept.step last
    have later : threads.run (earlier ++ [last]) = (threads.run earlier).step last :=
      List.foldl_append
    rw [← later] at next
    refine ⟨after, next, ?_⟩
    have uses : {count | threads.Used (earlier ++ [last]) count} =
        insert after.inUse {count | threads.Used earlier count} := by
      ext count
      exact used_concat next.there
    rw [uses, peak, Nat.max_comm]
    exact greatest.insert after.inUse

end Threads

end TileRoom
