import TileRoom.Client.Event
import TileRoom.Client.IdleQueue

/-! Events on their way to a game. Each waits in a slot; a flush takes all waiting
slots as one batch and empties them one by one, and when the batch is done its slots
are free to be used again. -/

namespace TileRoom

structure EventSlot where
  event : Option Event := none
deriving DecidableEq

structure EventQueue where
  pending : List EventSlot := []
  /-- The slots that can be used again, the next to be used first. -/
  freed : List EventSlot := []
  batch : List EventSlot := []
  /-- The slots of the batch in progress that were emptied, the last first. -/
  spent : List EventSlot := []
  /-- The task that will begin the next flush. -/
  flushToken : Option IdleToken := none
  allocated : Nat := 0
deriving DecidableEq

namespace EventQueue

def push (queue : EventQueue) (event : Event) : EventQueue :=
  match queue.freed with
  | slot :: freed =>
      { queue with freed, pending := queue.pending ++ [{ slot with event := some event }] }
  | [] =>
      { queue with
        allocated := queue.allocated + 1
        pending := queue.pending ++ [{ event := some event }] }

def beginFlush (queue : EventQueue) : EventQueue :=
  { queue with flushToken := none, pending := [], batch := queue.pending }

def next? (queue : EventQueue) : Option (Option Event × EventQueue) :=
  match queue.batch with
  | [] => none
  | slot :: batch =>
      some (slot.event, { queue with batch, spent := { slot with event := none } :: queue.spent })

def endFlush (queue : EventQueue) : EventQueue :=
  { queue with spent := [], freed := queue.spent ++ queue.freed }

end EventQueue

end TileRoom
