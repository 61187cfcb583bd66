import TileRoom.Client.SlotTable

/-! The tiles a client has seen, in the order they were last touched. Each tile has a
slot that it keeps, a table leads from its number to the slot, and the slots are
threaded by links in both directions, from the tile touched longest ago to the one
touched last. The table has a place for every number up to the largest one entered,
so a number can be too large for it. -/

namespace TileRoom

/-- A tile as a client knows it, with the clock's value at its last update. -/
structure SeenTile where
  x : Int32 := 0
  y : Int32 := 0
  letter : Char := ' '
  updatedAt : Nat := 0
  movedBySelf : Bool := false
deriving DecidableEq

structure TileSlot where
  number : Nat
  tile : SeenTile := {}
  previous : Option Nat := none
  next : Option Nat := none
deriving DecidableEq

structure TileArena where
  slots : List TileSlot := []
  slotOf : SlotTable := {}
  head : Option Nat := none
  tail : Option Nat := none

namespace TileArena

def size (arena : TileArena) : Nat :=
  arena.slots.length

def isEmpty (arena : TileArena) : Bool :=
  arena.slots.isEmpty

def modify (arena : TileArena) (slot : Nat) (f : TileSlot → TileSlot) : TileArena :=
  { arena with slots := arena.slots.modify slot f }

/-- Lets the link that leads forward to a place, from the slot before it or from the
head, lead on. -/
def linkForward (arena : TileArena) (before : Option Nat) (next : Option Nat) : TileArena :=
  match before with
  | some slot => arena.modify slot ({ · with next })
  | none => { arena with head := next }

def linkBack (arena : TileArena) (after : Option Nat) (previous : Option Nat) : TileArena :=
  match after with
  | some slot => arena.modify slot ({ · with previous })
  | none => { arena with tail := previous }

def unlink (arena : TileArena) (slot : Nat) : TileArena :=
  match arena.slots[slot]? with
  | none => arena
  | some found =>
      ((arena.linkForward found.previous found.next).linkBack found.next found.previous).modify
        slot ({ · with previous := none, next := none })

def linkLast (arena : TileArena) (slot : Nat) : TileArena :=
  let placed := arena.modify slot ({ · with previous := arena.tail, next := none })
  { placed.linkForward arena.tail (some slot) with tail := some slot }

def insert (arena : TileArena) (number : Nat) : TileArena :=
  if (arena.slotOf.find? number).isSome then arena
  else
    let slot := arena.slots.length
    let made : TileArena :=
      { arena with
        slots := arena.slots ++ [{ number := number }]
        slotOf := arena.slotOf.put number slot }
    made.linkLast slot

/-- Makes a slot for a number that may be too large for the table. -/
def insert? (arena : TileArena) (number : Nat) : Option TileArena :=
  if arena.slotOf.hasRoom number then some (arena.insert number) else none

def update (arena : TileArena) (number : Nat) (f : SeenTile → SeenTile) : TileArena :=
  match arena.slotOf.find? number with
  | none => arena
  | some slot => arena.modify slot fun found => { found with tile := f found.tile }

def touch (arena : TileArena) (number : Nat) : TileArena :=
  match arena.slotOf.find? number with
  | none => arena
  | some slot => if arena.tail = some slot then arena else (arena.unlink slot).linkLast slot

def get? (arena : TileArena) (number : Nat) : Option SeenTile :=
  (arena.slotOf.find? number).bind fun slot => (arena.slots[slot]?).map (·.tile)

def follow (arena : TileArena) : Nat → Option Nat → List TileSlot
  | 0, _ | _, none => []
  | steps + 1, some slot =>
      match arena.slots[slot]? with
      | none => []
      | some found => found :: arena.follow steps found.next

/-- The tiles with their numbers, the one touched longest ago first. -/
def toList (arena : TileArena) : List (Nat × SeenTile) :=
  (arena.follow arena.size arena.head).map fun slot => (slot.number, slot.tile)

end TileArena

end TileRoom
