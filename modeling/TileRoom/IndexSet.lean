/-! Sets of indices below a capacity, one bit for each index. Indices at or beyond
the capacity are never members, and inserting one changes nothing. -/

namespace TileRoom

structure IndexSet (capacity : Nat) where
  bits : BitVec capacity
deriving DecidableEq

namespace IndexSet

variable {capacity : Nat}

def empty : IndexSet capacity := ⟨0⟩

def contains (set : IndexSet capacity) (index : Nat) : Bool :=
  decide (index < capacity) && set.bits.getLsbD index

/-- The bit of an index; one beyond the capacity has none. -/
def bit (index : Nat) : BitVec capacity :=
  if index < capacity then BitVec.twoPow capacity index else 0

def insert (set : IndexSet capacity) (index : Nat) : IndexSet capacity :=
  ⟨set.bits ||| bit index⟩

def erase (set : IndexSet capacity) (index : Nat) : IndexSet capacity :=
  ⟨set.bits &&& ~~~bit index⟩

def put (set : IndexSet capacity) (index : Nat) (present : Bool) : IndexSet capacity :=
  if present then set.insert index else set.erase index

def insertBelow (set : IndexSet capacity) (count : Nat) : IndexSet capacity :=
  (List.range (min count capacity)).foldl insert set

def toList (set : IndexSet capacity) : List Nat :=
  (List.range capacity).filter set.contains

def first? (set : IndexSet capacity) : Option Nat :=
  (List.range capacity).find? set.contains

def count (set : IndexSet capacity) : Nat :=
  (List.range capacity).countP set.contains

def isEmpty (set : IndexSet capacity) : Bool :=
  set.bits = 0

theorem getLsbD_bit (index other : Nat) :
    (bit index : BitVec capacity).getLsbD other =
      (decide (index < capacity) && decide (other = index)) := by
  by_cases below : index < capacity
  · simp only [bit, below, if_true, BitVec.getLsbD_twoPow, decide_true, Bool.true_and]
    by_cases same : index = other <;> simp_all [eq_comm]
  · simp [bit, below]

theorem contains_eq_getLsbD (set : IndexSet capacity) (index : Nat) :
    set.contains index = set.bits.getLsbD index := by
  by_cases below : index < capacity
  · simp [contains, below]
  · simp [contains, below, BitVec.getLsbD_of_ge set.bits index (by omega)]

theorem contains_empty (index : Nat) : (empty : IndexSet capacity).contains index = false := by
  simp [contains_eq_getLsbD, empty]

theorem contains_insert (set : IndexSet capacity) (index other : Nat) :
    (set.insert index).contains other =
      (set.contains other || (decide (index < capacity) && decide (other = index))) := by
  simp [contains_eq_getLsbD, insert, getLsbD_bit]

end IndexSet

end TileRoom
