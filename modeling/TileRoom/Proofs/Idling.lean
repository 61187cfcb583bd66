import Mathlib.Data.List.Perm.Basic
import TileRoom.Client.IdleQueue

/-! A queue of tasks at work. A flush is taken apart: first it takes all tasks that wait, and then
they run one after another, while others are queued and cancelled. Each token that was given out
stands in one place: its task ran, was taken by a flush and will run, waits, or was cancelled. Only
a task that waits can be cancelled; one that a flush has taken runs whatever happens. -/

namespace TileRoom

namespace IdleQueue

variable {task : Type}

def tokens (queue : IdleQueue task) : List IdleToken :=
  queue.waiting.map (·.1)

theorem tokens_push (queue : IdleQueue task) (queued : task) :
    (queue.push queued).2.tokens = queue.tokens ++ [queue.nextToken] := by
  rw [tokens, push, List.map_append]
  rfl

theorem tokens_cancel (queue : IdleQueue task) (token : IdleToken) :
    (queue.cancel token).2.tokens = queue.tokens.erase token := by
  have same : (fun entry : IdleToken × task => decide (entry.1 = token)) = (token == ·) ∘ (·.1) := by
    funext entry
    rw [Function.comp_apply, Bool.eq_iff_iff, decide_eq_true_eq, beq_iff_eq, eq_comm]
  rw [tokens, tokens, List.erase_eq_eraseP, List.eraseP_map, ← same]
  rfl

theorem cancel_iff (queue : IdleQueue task) (token : IdleToken) :
    (queue.cancel token).1 = true ↔ token ∈ queue.tokens := by
  simp only [cancel, tokens, List.any_eq_true, List.mem_map, decide_eq_true_eq]

end IdleQueue

/-- A queue, the tasks that a flush took out and that did not begin, the tokens of the tasks that
began, in turn, and the tokens of those that were cancelled. -/
structure IdleWork (task : Type) where
  queue : IdleQueue task := {}
  taken : List (IdleToken × task) := []
  ran : List IdleToken := []
  cancelled : List IdleToken := []

inductive IdleStep (task : Type) where
  | act (action : IdleAction task)
  | take
  | start

namespace IdleWork

variable {task : Type} {work : IdleWork task}

def act (work : IdleWork task) : IdleAction task → IdleWork task
  | .queue queued => { work with queue := (work.queue.push queued).2 }
  | .cancel token =>
      { work with
        queue := (work.queue.cancel token).2
        cancelled := if (work.queue.cancel token).1 then token :: work.cancelled else work.cancelled }

def step (work : IdleWork task) : IdleStep task → IdleWork task
  | .act action => work.act action
  | .take =>
      match work.taken with
      | [] => { work with taken := work.queue.takeAll.1, queue := work.queue.takeAll.2 }
      | _ :: _ => work
  | .start =>
      match work.taken with
      | [] => work
      | (token, _) :: rest => { work with taken := rest, ran := work.ran ++ [token] }

def run (work : IdleWork task) (steps : List (IdleStep task)) : IdleWork task :=
  steps.foldl step work

theorem run_append (work : IdleWork task) (first later : List (IdleStep task)) :
    work.run (first ++ later) = (work.run first).run later :=
  List.foldl_append

/-- The tokens of the tasks that ran or will run, if nobody cancels them, in turn. -/
def turns (work : IdleWork task) : List IdleToken :=
  work.ran ++ work.taken.map (·.1) ++ work.queue.tokens

/-- Tasks run as they were queued, and each token that was given out stands in one place. No task
has the token 0. -/
structure Orderly (work : IdleWork task) : Prop where
  sorted : work.turns.Pairwise (· < ·)
  placed : (0 :: work.turns ++ work.cancelled).Perm (List.range work.queue.nextToken)

theorem orderly_empty : ({} : IdleWork task).Orderly :=
  ⟨List.Pairwise.nil, List.Perm.refl _⟩

theorem Orderly.same {later : IdleWork task} (orderly : work.Orderly) (turns : later.turns = work.turns)
    (rest : later.cancelled = work.cancelled ∧ later.queue.nextToken = work.queue.nextToken) : later.Orderly := by
  constructor
  · rw [turns]
    exact orderly.sorted
  · rw [turns, rest.1, rest.2]
    exact orderly.placed

theorem Orderly.queue (orderly : work.Orderly) (queued : task) : (work.act (.queue queued)).Orderly := by
  have turns : (work.act (.queue queued)).turns = work.turns ++ [work.queue.nextToken] := by
    rw [IdleWork.turns, IdleWork.turns, act, IdleQueue.tokens_push, List.append_assoc, List.append_assoc,
      List.append_assoc]
  have next : (work.act (.queue queued)).queue.nextToken = work.queue.nextToken + 1 := rfl
  constructor
  · rw [turns, List.pairwise_append]
    refine ⟨orderly.sorted, List.pairwise_singleton _ _, ?_⟩
    intro token member other last
    rw [List.mem_singleton.1 last, ← List.mem_range, ← orderly.placed.mem_iff]
    exact List.mem_append_left _ (List.mem_cons_of_mem 0 member)
  · rw [turns, next, List.range_succ]
    calc
      (0 :: (work.turns ++ [work.queue.nextToken]) ++ work.cancelled).Perm
          ((0 :: work.turns ++ work.cancelled) ++ [work.queue.nextToken]) := by
        rw [← List.cons_append, List.append_assoc, List.append_assoc]
        exact List.perm_append_comm.append_left _
      List.Perm _ (List.range work.queue.nextToken ++ [work.queue.nextToken]) := orderly.placed.append_right _

theorem Orderly.distinct (orderly : work.Orderly) : (0 :: work.turns ++ work.cancelled).Nodup :=
  orderly.placed.nodup_iff.2 List.nodup_range

theorem Orderly.cancel (orderly : work.Orderly) (token : IdleToken) : (work.act (.cancel token)).Orderly := by
  have next : (work.act (.cancel token)).queue.nextToken = work.queue.nextToken := rfl
  by_cases waits : token ∈ work.queue.tokens
  · have found := (work.queue.cancel_iff token).2 waits
    have early : token ∉ work.ran ++ work.taken.map (·.1) := by
      intro before
      have apart := (List.pairwise_append.1 orderly.sorted).2.2 token before token waits
      exact Nat.lt_irrefl _ apart
    have turns : (work.act (.cancel token)).turns = work.turns.erase token := by
      rw [IdleWork.turns, IdleWork.turns, List.erase_append_right _ early, ← IdleQueue.tokens_cancel]
      rfl
    have cancelled : (work.act (.cancel token)).cancelled = token :: work.cancelled := by
      rw [act, found]
      rfl
    constructor
    · rw [turns]
      exact orderly.sorted.sublist List.erase_sublist
    · rw [turns, cancelled, next]
      have member : token ∈ work.turns := List.mem_append_right _ waits
      calc
        (0 :: work.turns.erase token ++ token :: work.cancelled).Perm
            (0 :: (token :: work.turns.erase token) ++ work.cancelled) := by
          rw [List.cons_append, List.cons_append, List.cons_append]
          exact List.perm_middle.cons 0
        List.Perm _ (0 :: work.turns ++ work.cancelled) :=
          ((List.perm_cons_erase member).symm.cons 0).append_right _
        List.Perm _ (List.range work.queue.nextToken) := orderly.placed
  · have found : (work.queue.cancel token).1 = false := by
      rw [Bool.eq_false_iff, ne_eq, IdleQueue.cancel_iff]
      exact waits
    apply orderly.same
    · rw [turns, turns]
      change work.ran ++ work.taken.map (·.1) ++ (work.queue.cancel token).2.tokens = _
      rw [IdleQueue.tokens_cancel, List.erase_of_not_mem waits]
    · rw [act, found]
      exact ⟨rfl, rfl⟩

theorem turns_take (work : IdleWork task) : (work.step .take).turns = work.turns := by
  rw [step]
  split
  next none =>
    rw [turns, turns, none, IdleQueue.takeAll, List.map_nil, List.append_nil]
    exact List.append_nil _
  next => rfl

theorem turns_start (work : IdleWork task) : (work.step .start).turns = work.turns := by
  rw [step]
  split
  next => rfl
  next token task rest next =>
    rw [turns, turns, next, List.map_cons, List.append_assoc, List.append_assoc, List.append_assoc]
    rfl

theorem Orderly.step (orderly : work.Orderly) (step : IdleStep task) : (work.step step).Orderly := by
  cases step with
  | act action =>
    cases action with
    | queue queued => exact orderly.queue queued
    | cancel token => exact orderly.cancel token
  | take =>
    apply orderly.same (turns_take work)
    rw [IdleWork.step]
    split <;> exact ⟨rfl, rfl⟩
  | start =>
    apply orderly.same (turns_start work)
    rw [IdleWork.step]
    split <;> exact ⟨rfl, rfl⟩

theorem Orderly.run (orderly : work.Orderly) (steps : List (IdleStep task)) : (work.run steps).Orderly := by
  induction steps generalizing work with
  | nil => exact orderly
  | cons step rest ih => exact ih (orderly.step step)

theorem cancelled_run {token : IdleToken} (gone : token ∈ work.cancelled) (steps : List (IdleStep task)) :
    token ∈ (work.run steps).cancelled := by
  induction steps generalizing work with
  | nil => exact gone
  | cons step rest ih =>
    apply ih
    cases step with
    | act action =>
      cases action with
      | queue queued => exact gone
      | cancel other =>
        change token ∈ if (work.queue.cancel other).1 then other :: work.cancelled else work.cancelled
        split
        next => exact List.mem_cons_of_mem other gone
        next => exact gone
    | take | start =>
      rw [IdleWork.step]
      split <;> exact gone

def due (work : IdleWork task) : List IdleToken :=
  work.ran ++ work.taken.map (·.1)

theorem due_run (work : IdleWork task) (steps : List (IdleStep task)) : work.due <+: (work.run steps).due := by
  induction steps generalizing work with
  | nil => exact List.prefix_rfl
  | cons step rest ih =>
    refine List.IsPrefix.trans ?_ (ih (work.step step))
    cases step with
    | act action => cases action <;> exact List.prefix_rfl
    | take =>
      rw [IdleWork.step]
      split
      next none =>
        rw [due, none, List.map_nil, List.append_nil]
        exact List.prefix_append _ _
      next => exact List.prefix_rfl
    | start =>
      rw [IdleWork.step]
      split
      next => exact List.prefix_rfl
      next token task rest next =>
        rw [due, due, next, List.map_cons, List.append_assoc]
        exact List.prefix_rfl

def flushSteps (actions : task → List (IdleAction task)) (tasks : List (IdleToken × task)) : List (IdleStep task) :=
  tasks.flatMap fun entry => .start :: (actions entry.2).map .act

theorem run_acts (work : IdleWork task) (actions : List (IdleAction task)) :
    (work.run (actions.map .act)).queue = actions.foldl IdleQueue.perform work.queue ∧
      (work.run (actions.map .act)).taken = work.taken ∧ (work.run (actions.map .act)).ran = work.ran := by
  induction actions generalizing work with
  | nil => exact ⟨rfl, rfl, rfl⟩
  | cons action rest ih =>
    have later := ih (work.act action)
    cases action <;> exact later

theorem run_flushSteps (actions : task → List (IdleAction task)) {tasks : List (IdleToken × task)}
    (taken : work.taken = tasks) :
    (work.run (flushSteps actions tasks)).queue =
        tasks.foldl (fun queue entry => (actions entry.2).foldl IdleQueue.perform queue) work.queue ∧
      (work.run (flushSteps actions tasks)).taken = [] ∧
      (work.run (flushSteps actions tasks)).ran = work.ran ++ tasks.map (·.1) := by
  induction tasks generalizing work with
  | nil => exact ⟨rfl, taken, (List.append_nil _).symm⟩
  | cons entry rest ih =>
    have begun : work.step .start = { work with taken := rest, ran := work.ran ++ [entry.1] } := by
      rw [step, taken]
    obtain ⟨queue, left, ran⟩ := (work.step .start).run_acts (actions entry.2)
    rw [begun] at queue left ran
    obtain ⟨queues, none, runs⟩ := ih left
    have steps : work.run (flushSteps actions (entry :: rest)) =
        ((work.step .start).run ((actions entry.2).map .act)).run (flushSteps actions rest) := by
      rw [← run_append]
      rfl
    rw [steps, begun, queues, none, runs, queue, ran]
    refine ⟨rfl, rfl, ?_⟩
    rw [List.append_assoc]
    rfl

structure Lawful (work : IdleWork task) : Prop where
  order : work.ran.Pairwise (· < ·)
  cancels : ∀ token, (work.queue.cancel token).1 = true ↔ token ∈ work.queue.tokens
  refuses : ∀ token, (work.queue.cancel token).1 = false ↔ token ∈ work.ran ∨ token ∈ work.taken.map (·.1) ∨
    token ∈ work.cancelled ∨ token = 0 ∨ work.queue.nextToken ≤ token
  spared : ∀ token steps, (work.queue.cancel token).1 = true → token ∉ ((work.act (.cancel token)).run steps).ran
  due : ∀ steps, work.due <+: (work.run steps).due
  flush : work.taken = [] → ∀ actions,
    let later := work.run (.take :: flushSteps actions work.queue.waiting)
    later.queue = (work.queue.flush actions).2 ∧ later.taken = [] ∧
      later.ran = work.ran ++ (work.queue.flush actions).1.map (·.1) ∧
      (work.queue.flush actions).1.map (·.1) = work.queue.tokens

theorem Orderly.refuses (orderly : work.Orderly) (token : IdleToken) :
    token ∉ work.queue.tokens ↔ token ∈ work.ran ∨ token ∈ work.taken.map (·.1) ∨ token ∈ work.cancelled ∨
      token = 0 ∨ work.queue.nextToken ≤ token := by
  have given : token ∈ 0 :: work.turns ++ work.cancelled ↔ token < work.queue.nextToken := by
    rw [orderly.placed.mem_iff, List.mem_range]
  have distinct := orderly.distinct
  rw [List.cons_append, List.nodup_cons, List.nodup_append] at distinct
  obtain ⟨fresh, _, _, apart⟩ := distinct
  have earlier := (List.pairwise_append.1 orderly.sorted).2.2 token
  constructor
  · intro absent
    rcases Nat.lt_or_ge token work.queue.nextToken with below | beyond
    · have member := given.2 below
      simp only [turns, List.cons_append, List.mem_cons, List.mem_append] at member
      tauto
    · tauto
  · intro elsewhere waits
    have turn : token ∈ work.turns := List.mem_append_right _ waits
    rcases elsewhere with ran | taken | gone | none | beyond
    · exact Nat.lt_irrefl _ (earlier (List.mem_append_left _ ran) token waits)
    · exact Nat.lt_irrefl _ (earlier (List.mem_append_right _ taken) token waits)
    · exact apart token turn token gone rfl
    · exact fresh (List.mem_append_left _ (none ▸ turn))
    · exact Nat.not_lt.2 beyond (given.1 (List.mem_append_left _ (List.mem_cons_of_mem 0 turn)))

/-- Tasks run at most once and as they were queued. A flush runs the tasks that waited when it
began. A task that waits can be cancelled, and then it never runs; no other can, and one that was
taken by a flush runs in its turn even if a task before it would cancel it. -/
theorem run_lawful (steps : List (IdleStep task)) : (({} : IdleWork task).run steps).Lawful := by
  have orderly := orderly_empty.run steps
  generalize ({} : IdleWork task).run steps = work at orderly ⊢
  constructor
  case order =>
    have sorted := orderly.sorted
    rw [turns, List.append_assoc] at sorted
    exact (List.pairwise_append.1 sorted).1
  case cancels => exact work.queue.cancel_iff
  case refuses =>
    intro token
    rw [Bool.eq_false_iff, ne_eq, IdleQueue.cancel_iff]
    exact orderly.refuses token
  case spared =>
    intro token steps found ran
    have gone : token ∈ (work.act (.cancel token)).cancelled := by
      rw [act, found]
      exact List.mem_cons_self
    have later := ((orderly.cancel token).run steps).distinct
    rw [List.nodup_append] at later
    refine later.2.2 token (List.mem_cons_of_mem 0 ?_) token (cancelled_run gone steps) rfl
    rw [turns, List.append_assoc]
    exact List.mem_append_left _ ran
  case due => exact work.due_run
  case flush =>
    intro none actions later
    have took : work.step .take = { work with taken := work.queue.waiting, queue := work.queue.takeAll.2 } := by
      rw [step, none]
      rfl
    have taken : (work.step .take).taken = work.queue.waiting := by rw [took]
    obtain ⟨queue, left, ran⟩ := run_flushSteps actions taken
    refine ⟨queue.trans ?_, left, ran.trans ?_, rfl⟩
    · rw [took]
      rfl
    · rw [took]
      rfl

/-- A task that was taken by a flush and did not begin is not cancelled, and runs. -/
theorem taken_not_cancelled :
    let queue := ((IdleQueue.empty.push true).2.push false).2
    let actions (first : Bool) : List (IdleAction Bool) := if first then [.cancel 2] else []
    (queue.takeAll.2.cancel 2).1 = false ∧ (queue.flush actions).1 = [(1, true), (2, false)] := by
  decide

end IdleWork

end TileRoom
