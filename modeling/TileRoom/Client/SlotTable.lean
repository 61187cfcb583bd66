/-! Tables of slots. The place of a number in a table is the number itself, so a table has a place
for every number up to the largest one that was entered, and a number can be too large for it. -/

namespace TileRoom

structure SlotTable where
  places : List (Option Nat) := []

namespace SlotTable

def size (table : SlotTable) : Nat :=
  table.places.length

def find? (table : SlotTable) (number : Nat) : Option Nat :=
  (table.places[number]?).join

/-- The most places that a table can have. Each takes 16 bytes, and no more than the largest signed
word of 64 bits can be asked for. -/
def maxSize : Nat :=
  0x7fffffffffffffff / 16

def extend (table : SlotTable) (number : Nat) : SlotTable :=
  if table.size ≤ number then
    { places := table.places ++ List.replicate (number + 1 - table.size) none }
  else table

def hasRoom (table : SlotTable) (number : Nat) : Bool :=
  number < table.size || number + 1 ≤ maxSize

def put (table : SlotTable) (number slot : Nat) : SlotTable :=
  { places := (table.extend number).places.set number (some slot) }

theorem size_extend (table : SlotTable) (number : Nat) :
    (table.extend number).size = max table.size (number + 1) := by
  rw [extend]
  split
  next short =>
    rw [size, List.length_append, List.length_replicate, ← size]
    omega
  next long => omega

theorem find?_extend (table : SlotTable) (number other : Nat) :
    (table.extend number).find? other = table.find? other := by
  rw [extend]
  split
  next =>
    rw [find?, find?, List.getElem?_append]
    split
    next => rfl
    next beyond =>
      rw [List.getElem?_eq_none (Nat.le_of_not_lt beyond), List.getElem?_replicate]
      split <;> rfl
  next => rfl

theorem find?_put (table : SlotTable) (number slot other : Nat) :
    (table.put number slot).find? other = if number = other then some slot else table.find? other := by
  rw [find?, put]
  by_cases here : number = other
  · have inside : other < (table.extend number).places.length := by
      rw [← size, size_extend]
      omega
    rw [← here] at inside ⊢
    rw [List.getElem?_set_self inside, if_pos rfl]
    rfl
  · rw [List.getElem?_set_ne here, if_neg here]
    exact find?_extend table number other

theorem size_put (table : SlotTable) (number slot : Nat) :
    (table.put number slot).size = max table.size (number + 1) := by
  rw [size, put, List.length_set, ← size, size_extend]

end SlotTable

end TileRoom
