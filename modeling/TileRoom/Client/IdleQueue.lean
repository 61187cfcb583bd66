/-! Tasks that wait until a thread has time for them. Each gets a token of its own
when it is queued, and can be cancelled by it until the queue is emptied. A task that
runs may queue and cancel others; what it queues waits for the next time. -/

namespace TileRoom

abbrev IdleToken := Nat

structure IdleQueue (task : Type) where
  nextToken : IdleToken := 1
  waiting : List (IdleToken × task) := []

/-- What a running task may do to the queue. -/
inductive IdleAction (task : Type) where
  | queue (queued : task)
  | cancel (token : IdleToken)

namespace IdleQueue

variable {task : Type}

def empty : IdleQueue task := {}

def size (queue : IdleQueue task) : Nat :=
  queue.waiting.length

def isEmpty (queue : IdleQueue task) : Bool :=
  queue.waiting.isEmpty

def push (queue : IdleQueue task) (queued : task) : IdleToken × IdleQueue task :=
  (queue.nextToken,
    { nextToken := queue.nextToken + 1
      waiting := queue.waiting ++ [(queue.nextToken, queued)] })

def cancel (queue : IdleQueue task) (token : IdleToken) : Bool × IdleQueue task :=
  (queue.waiting.any (·.1 = token),
    { queue with waiting := queue.waiting.eraseP (·.1 = token) })

def takeAll (queue : IdleQueue task) : List (IdleToken × task) × IdleQueue task :=
  (queue.waiting, { queue with waiting := [] })

def perform (queue : IdleQueue task) : IdleAction task → IdleQueue task
  | .queue queued => (queue.push queued).2
  | .cancel token => (queue.cancel token).2

def flush (actions : task → List (IdleAction task)) (queue : IdleQueue task) :
    List (IdleToken × task) × IdleQueue task :=
  let (taken, rest) := queue.takeAll
  (taken, taken.foldl (fun queue (_, ran) => (actions ran).foldl perform queue) rest)

structure Flushes (task : Type) where
  count : Nat
  ran : List (IdleToken × task)
  after : IdleQueue task

/-- Flushes at least once, and again until it did so `limit` times or nothing waits. -/
def flushUntil (actions : task → List (IdleAction task)) : Nat → IdleQueue task → Flushes task
  | limit, queue =>
      let (ran, after) := queue.flush actions
      match limit with
      | 0 | 1 => ⟨1, ran, after⟩
      | limit + 2 =>
          if after.isEmpty then ⟨1, ran, after⟩
          else
            let later := flushUntil actions (limit + 1) after
            ⟨later.count + 1, ran ++ later.ran, later.after⟩

end IdleQueue

end TileRoom
