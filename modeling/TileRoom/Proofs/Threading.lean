import Mathlib.Data.List.Chain
import Mathlib.Data.List.Nodup
import TileRoom.Proofs.Arena

/-! The links of an arena. They thread some of the slots to a ring that has one more place, where
the order begins and ends: the head comes after it and the tail before it. Each place of the ring
leads to the next one and back. Taking a slot out and putting one at the end change the ring as
they should, wherever the slot stood. -/

namespace TileRoom.TileArena

variable {arena : TileArena} {order front back : List Nat} {slot : Nat}

/-- The place that comes after a place; without a slot it is the one between tail and head. -/
def after (arena : TileArena) : Option Nat → Option Nat
  | none => arena.head
  | some slot => (arena.slots[slot]?).bind (·.next)

def before (arena : TileArena) : Option Nat → Option Nat
  | none => arena.tail
  | some slot => (arena.slots[slot]?).bind (·.previous)

def Linked (arena : TileArena) (place next : Option Nat) : Prop :=
  arena.after place = next ∧ arena.before next = place

/-- Slots in their order, with the place where the order begins and ends. -/
def ring (order : List Nat) : List (Option Nat) :=
  none :: order.map some ++ [none]

structure Threaded (arena : TileArena) (order : List Nat) : Prop where
  linked : (ring order).IsChain arena.Linked
  distinct : order.Nodup
  inside : ∀ slot ∈ order, slot < arena.size

def Has (arena : TileArena) (place : Option Nat) : Prop :=
  ∀ slot, place = some slot → slot < arena.size

theorem threaded_empty : ({} : TileArena).Threaded [] :=
  ⟨List.isChain_pair.2 ⟨rfl, rfl⟩, List.nodup_nil, List.forall_mem_nil _⟩

theorem ring_split (front : List Nat) (slot : Nat) (back : List Nat) :
    ∃ left right, none :: front.map some = left ++ [front.getLast?] ∧
      back.map some ++ [none] = back.head? :: right ∧
      ring (front ++ slot :: back) = left ++ front.getLast? :: some slot :: back.head? :: right ∧
      ring (front ++ back) = left ++ front.getLast? :: back.head? :: right := by
  have left : ∃ left, none :: front.map some = left ++ [front.getLast?] := by
    induction front using List.reverseRecOn with
    | nil => exact ⟨[], rfl⟩
    | append_singleton first last =>
      refine ⟨none :: first.map some, ?_⟩
      rw [List.getLast?_concat, List.map_append, List.cons_append]
      rfl
  have right : ∃ right, back.map some ++ [none] = back.head? :: right := by
    cases back with
    | nil => exact ⟨[], rfl⟩
    | cons first rest => exact ⟨rest.map some ++ [none], rfl⟩
  obtain ⟨left, begins⟩ := left
  obtain ⟨right, ends⟩ := right
  refine ⟨left, right, begins, ends, ?_, ?_⟩
  · calc
      ring (front ++ slot :: back) = (none :: front.map some) ++ some slot :: (back.map some ++ [none]) := by
        rw [ring, List.map_append, List.map_cons, List.cons_append, List.append_assoc, List.cons_append,
          List.cons_append]
      _ = left ++ front.getLast? :: some slot :: back.head? :: right := by
        rw [begins, ends, List.append_assoc, List.singleton_append]
  · calc
      ring (front ++ back) = (none :: front.map some) ++ (back.map some ++ [none]) := by
        rw [ring, List.map_append, List.cons_append, List.append_assoc, List.cons_append]
      _ = left ++ front.getLast? :: back.head? :: right := by
        rw [begins, ends, List.append_assoc, List.singleton_append]

theorem after_modify (arena : TileArena) (slot : Nat) (f : TileSlot → TileSlot) (place : Option Nat) :
    (arena.modify slot f).after place =
      if place = some slot then (arena.slots[slot]?).bind fun found => (f found).next else arena.after place := by
  cases place with
  | none => rw [if_neg nofun]; rfl
  | some other =>
    rw [after, modify, List.getElem?_modify]
    by_cases here : slot = other
    · subst here
      rw [if_pos rfl]
      cases arena.slots[slot]? <;> simp
    · rw [if_neg fun same => here (Option.some.inj same).symm, after]
      cases arena.slots[other]? <;> simp [here]

theorem before_modify (arena : TileArena) (slot : Nat) (f : TileSlot → TileSlot) (place : Option Nat) :
    (arena.modify slot f).before place =
      if place = some slot then (arena.slots[slot]?).bind fun found => (f found).previous
      else arena.before place := by
  cases place with
  | none => rw [if_neg nofun]; rfl
  | some other =>
    rw [before, modify, List.getElem?_modify]
    by_cases here : slot = other
    · subst here
      rw [if_pos rfl]
      cases arena.slots[slot]? <;> simp
    · rw [if_neg fun same => here (Option.some.inj same).symm, before]
      cases arena.slots[other]? <;> simp [here]

theorem after_linkForward {place : Option Nat} (has : arena.Has place) (next other : Option Nat) :
    (arena.linkForward place next).after other = if other = place then next else arena.after other := by
  cases place with
  | none => cases other <;> rfl
  | some slot =>
    rw [linkForward, after_modify, List.getElem?_eq_getElem (has slot rfl)]
    rfl

theorem before_linkForward (arena : TileArena) (place next other : Option Nat) :
    (arena.linkForward place next).before other = arena.before other := by
  cases place with
  | none => cases other <;> rfl
  | some slot =>
    rw [linkForward, before_modify]
    split
    next here => rw [here]; rfl
    next => rfl

theorem before_linkBack {place : Option Nat} (has : arena.Has place) (previous other : Option Nat) :
    (arena.linkBack place previous).before other = if other = place then previous else arena.before other := by
  cases place with
  | none => cases other <;> rfl
  | some slot =>
    rw [linkBack, before_modify, List.getElem?_eq_getElem (has slot rfl)]
    rfl

theorem after_linkBack (arena : TileArena) (place previous other : Option Nat) :
    (arena.linkBack place previous).after other = arena.after other := by
  cases place with
  | none => cases other <;> rfl
  | some slot =>
    rw [linkBack, after_modify]
    split
    next here => rw [here]; rfl
    next => rfl

theorem Relinked.size {earlier later : TileArena} (relinked : Relinked earlier later) : later.size = earlier.size := by
  have same := congrArg List.length relinked.slots
  rwa [List.length_map, List.length_map] at same

theorem has_of_relinked {earlier later : TileArena} (relinked : Relinked earlier later) {place : Option Nat}
    (has : earlier.Has place) : later.Has place := by
  intro slot same
  rw [relinked.size]
  exact has slot same

theorem links_unlink {previous next : Option Nat} (first : arena.Linked previous (some slot))
    (second : arena.Linked (some slot) next) (there : slot < arena.size) (hasPrevious : arena.Has previous)
    (hasNext : arena.Has next) (place : Option Nat) :
    (arena.unlink slot).after place =
        (if place = some slot then none else if place = previous then next else arena.after place) ∧
      (arena.unlink slot).before place =
        (if place = some slot then none else if place = next then previous else arena.before place) := by
  have found : arena.slots[slot]? = some arena.slots[slot] := List.getElem?_eq_getElem there
  have leads : arena.slots[slot].next = next := by
    rw [← second.1, after, found, Option.bind_some]
  have back : arena.slots[slot].previous = previous := by
    rw [← first.2, before, found, Option.bind_some]
  have forward := relinked_linkForward arena previous next
  have both := forward.trans (relinked_linkBack _ next previous)
  have kept : ((arena.linkForward previous next).linkBack next previous).slots[slot]? ≠ none := by
    intro none
    have short := List.getElem?_eq_none_iff.1 none
    exact absurd there (Nat.not_lt.2 (both.size ▸ short))
  obtain ⟨record, known⟩ := Option.ne_none_iff_exists'.1 kept
  simp only [unlink, found, leads, back]
  rw [after_modify, before_modify, known, after_linkBack, after_linkForward hasPrevious,
    before_linkBack (has_of_relinked forward hasNext), before_linkForward]
  exact ⟨rfl, rfl⟩

theorem links_linkLast (there : slot < arena.size) (hasTail : arena.Has arena.tail) (place : Option Nat) :
    (arena.linkLast slot).after place =
        (if place = arena.tail then some slot else if place = some slot then none else arena.after place) ∧
      (arena.linkLast slot).before place =
        (if place = none then some slot else if place = some slot then arena.tail else arena.before place) := by
  have found : arena.slots[slot]? = some arena.slots[slot] := List.getElem?_eq_getElem there
  have placed := relinked_modify arena slot ({ · with previous := arena.tail, next := none }) fun _ => rfl
  constructor
  · calc
      (arena.linkLast slot).after place = ((arena.modify slot
          ({ · with previous := arena.tail, next := none })).linkForward arena.tail (some slot)).after place := by
        cases place <;> rfl
      _ = _ := by
        rw [after_linkForward (has_of_relinked placed hasTail), after_modify, found]
        rfl
  · cases place with
    | none => rfl
    | some other =>
      change ((arena.modify slot ({ · with previous := arena.tail, next := none })).linkForward arena.tail
        (some slot)).before (some other) = _
      rw [before_linkForward, before_modify, found, if_neg (Option.some_ne_none other)]
      rfl

theorem Threaded.has {place : Option Nat} (threaded : arena.Threaded order) (member : place ∈ ring order) :
    arena.Has place := by
  rintro slot rfl
  rcases List.mem_append.1 member with inner | last
  · rcases List.mem_cons.1 inner with first | inner
    · cases first
    · obtain ⟨other, inside, same⟩ := List.mem_map.1 inner
      exact Option.some.inj same ▸ threaded.inside other inside
  · cases List.mem_singleton.1 last

theorem Threaded.congr {later : TileArena} (threaded : arena.Threaded order) (size : arena.size ≤ later.size)
    (links : ∀ place, arena.Has place → later.after place = arena.after place ∧
      later.before place = arena.before place) : later.Threaded order := by
  refine ⟨?_, threaded.distinct, fun slot member => Nat.lt_of_lt_of_le (threaded.inside slot member) size⟩
  apply threaded.linked.imp_of_mem_imp
  intro place next member also pair
  exact ⟨(links place (threaded.has member)).1.trans pair.1, (links next (threaded.has also)).2.trans pair.2⟩

theorem Threaded.beside (threaded : arena.Threaded (front ++ slot :: back)) :
    arena.Linked front.getLast? (some slot) ∧ arena.Linked (some slot) back.head? := by
  obtain ⟨left, right, _, _, whole, _⟩ := ring_split front slot back
  have linked := threaded.linked
  rw [whole, List.isChain_append_cons_cons, List.isChain_cons_cons] at linked
  exact ⟨linked.2.1, linked.2.2.1⟩

theorem Threaded.has_beside (threaded : arena.Threaded (front ++ slot :: back)) :
    arena.Has front.getLast? ∧ arena.Has back.head? := by
  constructor
  · intro previous same
    exact threaded.inside previous (List.mem_append_left _ (List.mem_of_getLast? same))
  · intro next same
    exact threaded.inside next (List.mem_append_right front (List.mem_cons_of_mem slot (List.mem_of_head? same)))

theorem Threaded.links_unlink (threaded : arena.Threaded (front ++ slot :: back)) (place : Option Nat) :
    (arena.unlink slot).after place =
        (if place = some slot then none else if place = front.getLast? then back.head? else arena.after place) ∧
      (arena.unlink slot).before place =
        (if place = some slot then none else if place = back.head? then front.getLast? else arena.before place) := by
  obtain ⟨first, second⟩ := threaded.beside
  obtain ⟨hasPrevious, hasNext⟩ := threaded.has_beside
  have there : slot < arena.size := threaded.inside slot (List.mem_append_right front List.mem_cons_self)
  exact TileArena.links_unlink first second there hasPrevious hasNext place

theorem Threaded.unlink (threaded : arena.Threaded (front ++ slot :: back)) :
    (arena.unlink slot).Threaded (front ++ back) := by
  obtain ⟨left, right, begins, ends, whole, rest⟩ := ring_split front slot back
  obtain ⟨first, second⟩ := threaded.beside
  have links := threaded.links_unlink
  have linked := threaded.linked
  rw [whole, List.isChain_append_cons_cons, List.isChain_cons_cons] at linked
  obtain ⟨left_linked, _, _, right_linked⟩ := linked
  have absent := threaded.distinct
  rw [List.nodup_middle, List.nodup_cons, List.mem_append, not_or] at absent
  -- A pair that does not have the slot in it keeps its links: whatever else leads to or from a
  -- neighbour of the slot, by the links that change, would lead to or from the slot.
  have kept (places : List (Option Nat)) (apart : some slot ∉ places) (chain : places.IsChain arena.Linked) :
      places.IsChain (arena.unlink slot).Linked := by
    apply chain.imp_of_mem_imp
    intro place next member also pair
    have other : place ≠ some slot := fun same => apart (same ▸ member)
    have otherNext : next ≠ some slot := fun same => apart (same ▸ also)
    constructor
    · rw [(links place).1, if_neg other, if_neg, pair.1]
      rintro rfl
      exact otherNext (pair.1.symm.trans first.1)
    · rw [(links next).2, if_neg otherNext, if_neg, pair.2]
      rintro rfl
      exact other (pair.2.symm.trans second.2)
  refine ⟨?_, absent.2, ?_⟩
  · rw [rest, List.isChain_append_cons_cons]
    refine ⟨kept _ ?_ left_linked, ⟨?_, ?_⟩, kept _ ?_ right_linked⟩
    · rw [← begins]
      simpa using absent.1.1
    · rw [(links _).1, if_neg fun same => absent.1.1 (List.mem_of_getLast? same), if_pos rfl]
    · rw [(links _).2, if_neg fun same => absent.1.2 (List.mem_of_head? same), if_pos rfl]
    · rw [← ends]
      simpa using absent.1.2
  · intro other member
    rw [(relinked_unlink arena slot).size]
    apply threaded.inside
    simp only [List.mem_append, List.mem_cons] at member ⊢
    exact member.imp_right Or.inr

theorem Threaded.tail (threaded : arena.Threaded order) : arena.tail = order.getLast? := by
  obtain ⟨left, right, _, _, _, rest⟩ := ring_split order 0 []
  have linked := threaded.linked
  rw [← List.append_nil order, rest, List.isChain_append_cons_cons] at linked
  exact linked.2.1.2

theorem Threaded.has_tail (threaded : arena.Threaded order) : arena.Has arena.tail := by
  intro slot last
  rw [threaded.tail] at last
  exact threaded.inside slot (List.mem_of_getLast? last)

theorem Threaded.linkLast (threaded : arena.Threaded order) (there : slot < arena.size) (loose : slot ∉ order) :
    (arena.linkLast slot).Threaded (order ++ [slot]) := by
  obtain ⟨left, right, begins, ends, whole, rest⟩ := ring_split order slot []
  obtain ⟨-, rfl⟩ := List.cons.inj ends
  have linked := threaded.linked
  have last := threaded.tail
  rw [← List.append_nil order, rest, List.isChain_append_cons_cons] at linked
  obtain ⟨left_linked, closing, _⟩ := linked
  have links := links_linkLast there threaded.has_tail
  refine ⟨?_, ?_, ?_⟩
  · rw [whole, List.isChain_append_cons_cons]
    refine ⟨?_, ⟨?_, ?_⟩, List.isChain_pair.2 ⟨?_, ?_⟩⟩
    · rw [← begins] at left_linked ⊢
      apply left_linked.imp_of_mem_tail_imp
      intro place next member later pair
      rw [List.tail_cons] at later
      obtain ⟨inner, old, rfl⟩ := List.mem_map.1 later
      have otherNext : some inner ≠ some slot := fun same => loose (Option.some.inj same ▸ old)
      have other : place ≠ some slot := by
        rintro rfl
        rcases List.mem_cons.1 member with none | found
        · cases none
        · obtain ⟨_, known, same⟩ := List.mem_map.1 found
          exact loose (Option.some.inj same ▸ known)
      have inside : place ≠ arena.tail := by
        rintro rfl
        have ends := pair.1.symm.trans (last ▸ closing.1)
        cases ends
      constructor
      · rw [(links place).1, if_neg inside, if_neg other, pair.1]
      · rw [(links (some inner)).2, if_neg (Option.some_ne_none inner), if_neg otherNext, pair.2]
    · rw [(links _).1, if_pos last.symm]
    · rw [(links _).2, if_neg (Option.some_ne_none slot), if_pos rfl, last]
    · have apart : some slot ≠ arena.tail := fun same => loose (List.mem_of_getLast? (last.symm.trans same.symm))
      rw [(links _).1, if_neg apart, if_pos rfl]
      rfl
    · exact (links none).2.trans (if_pos rfl)
  · rw [← List.concat_eq_append]
    exact threaded.distinct.concat loose
  · intro other member
    rw [(relinked_linkLast arena slot).size]
    rcases List.mem_append.1 member with old | new
    · exact threaded.inside other old
    · exact List.mem_singleton.1 new ▸ there

theorem Threaded.touch (threaded : arena.Threaded (front ++ slot :: back)) :
    (if arena.tail = some slot then arena else (arena.unlink slot).linkLast slot).Threaded
      (front ++ back ++ [slot]) := by
  have absent := threaded.distinct
  rw [List.nodup_middle, List.nodup_cons, List.mem_append, not_or] at absent
  split
  next last =>
    have none : back = [] := by
      rw [threaded.tail, List.getLast?_append, List.getLast?_cons] at last
      by_contra more
      rw [List.getLast?_eq_some_getLast more] at last
      exact absent.1.2 (Option.some.inj last ▸ List.getLast_mem more)
    rw [none] at threaded ⊢
    rwa [List.append_nil]
  next =>
    apply threaded.unlink.linkLast
    · rw [(relinked_unlink arena slot).size]
      exact threaded.inside slot (List.mem_append_right front List.mem_cons_self)
    · rw [List.mem_append, not_or]
      exact absent.1

theorem follow_after {place : Option Nat} (linked : (place :: order.map some ++ [none]).IsChain arena.Linked)
    (inside : ∀ slot ∈ order, slot < arena.size) {steps : Nat} (enough : order.length ≤ steps) :
    arena.follow steps (arena.after place) = order.filterMap (arena.slots[·]?) := by
  induction order generalizing place steps with
  | nil =>
    rw [(List.isChain_pair.1 linked).1]
    cases steps <;> rfl
  | cons slot rest ih =>
    obtain ⟨first, later⟩ := List.isChain_cons_cons.1 linked
    rw [List.length_cons] at enough
    obtain ⟨fewer, rfl⟩ := Nat.exists_eq_add_one_of_ne_zero (Nat.ne_zero_of_lt enough)
    have there : slot < arena.slots.length := inside slot List.mem_cons_self
    have found : arena.slots[slot]? = some arena.slots[slot] := List.getElem?_eq_getElem there
    have next : arena.after (some slot) = arena.slots[slot].next := by rw [after, found, Option.bind_some]
    have further := ih later (fun other member => inside other (List.mem_cons_of_mem slot member))
      (Nat.le_of_succ_le_succ enough)
    rw [first.1, TileArena.follow, found, List.filterMap_cons, found, ← further, next]

/-- The tiles are listed in their order, and the list is complete however long one goes on. -/
theorem Threaded.follow (threaded : arena.Threaded order) {steps : Nat} (enough : order.length ≤ steps) :
    arena.follow steps arena.head = order.filterMap (arena.slots[·]?) :=
  follow_after threaded.linked threaded.inside enough

end TileRoom.TileArena

namespace TileRoom

def TileSlot.mirror (slot : TileSlot) : TileSlot :=
  { slot with previous := slot.next, next := slot.previous }

namespace TileArena

variable {arena : TileArena} {order front back : List Nat} {slot : Nat}

/-- The arena read backwards. -/
def mirror (arena : TileArena) : TileArena :=
  { arena with slots := arena.slots.map TileSlot.mirror, head := arena.tail, tail := arena.head }

theorem after_mirror (arena : TileArena) (place : Option Nat) : arena.mirror.after place = arena.before place := by
  cases place with
  | none => rfl
  | some slot =>
    rw [after, before, mirror, List.getElem?_map]
    cases arena.slots[slot]? <;> rfl

theorem before_mirror (arena : TileArena) (place : Option Nat) : arena.mirror.before place = arena.after place := by
  cases place with
  | none => rfl
  | some slot =>
    rw [after, before, mirror, List.getElem?_map]
    cases arena.slots[slot]? <;> rfl

theorem Threaded.mirror (threaded : arena.Threaded order) : arena.mirror.Threaded order.reverse := by
  refine ⟨?_, List.nodup_reverse.2 threaded.distinct, ?_⟩
  · have backwards : ring order.reverse = (ring order).reverse := by
      rw [ring, ring, List.reverse_append, List.reverse_singleton, List.reverse_cons, List.map_reverse]
      rfl
    rw [backwards, List.isChain_reverse]
    apply threaded.linked.imp
    intro place next pair
    rw [Linked, after_mirror, before_mirror]
    exact pair.symm
  · intro slot member
    rw [size, TileArena.mirror, List.length_map]
    exact threaded.inside slot (List.mem_reverse.1 member)

def indices (arena : TileArena) : List Nat :=
  arena.head.toList ++ arena.tail.toList ++ arena.slotOf.places.filterMap id ++
    arena.slots.flatMap fun slot => slot.previous.toList ++ slot.next.toList

/-- No index that is kept leads out of the slots, when all of them are in the order. -/
theorem Threaded.indices (threaded : arena.Threaded order) (all : order.Perm (List.range arena.size))
    (table : ∀ number slot, arena.slotOf.find? number = some slot → slot < arena.size) :
    ∀ index ∈ arena.indices, index < arena.size := by
  have links (slot : Nat) (there : slot < arena.size) :
      arena.Has (arena.after (some slot)) ∧ arena.Has (arena.before (some slot)) := by
    obtain ⟨front, back, rfl⟩ := List.append_of_mem (all.mem_iff.2 (List.mem_range.2 there))
    obtain ⟨first, second⟩ := threaded.beside
    rw [second.1, first.2]
    exact threaded.has_beside.symm
  have first : arena.head = order.reverse.getLast? := threaded.mirror.tail
  intro index member
  simp only [TileArena.indices, List.mem_append, Option.mem_toList, List.mem_flatMap] at member
  rcases member with ((head | tail) | value) | ⟨found, kept, link⟩
  · rw [first] at head
    exact threaded.inside index (List.mem_reverse.1 (List.mem_of_getLast? head))
  · rw [threaded.tail] at tail
    exact threaded.inside index (List.mem_of_getLast? tail)
  · obtain ⟨_, entry, rfl⟩ := List.mem_filterMap.1 value
    obtain ⟨number, place⟩ := List.mem_iff_getElem?.1 entry
    exact table number index (by rw [SlotTable.find?, place]; rfl)
  · obtain ⟨slot, place⟩ := List.mem_iff_getElem?.1 kept
    obtain ⟨next, previous⟩ := links slot (List.getElem?_eq_some_iff.1 place).1
    rcases link with back | forward
    · apply previous
      rw [before, place, Option.bind_some, back]
    · apply next
      rw [after, place, Option.bind_some, forward]

def tryModify (arena : TileArena) (slot : Nat) (f : TileSlot → TileSlot) : Option TileArena :=
  if slot < arena.size then some (arena.modify slot f) else none

def tryLinkForward (arena : TileArena) (place next : Option Nat) : Option TileArena :=
  match place with
  | some slot => arena.tryModify slot ({ · with next })
  | none => some { arena with head := next }

def tryLinkBack (arena : TileArena) (place previous : Option Nat) : Option TileArena :=
  match place with
  | some slot => arena.tryModify slot ({ · with previous })
  | none => some { arena with tail := previous }

def tryUnlink (arena : TileArena) (slot : Nat) : Option TileArena :=
  (arena.slots[slot]?).bind fun found =>
    (arena.tryLinkForward found.previous found.next).bind fun linked =>
      (linked.tryLinkBack found.next found.previous).bind fun linked =>
        linked.tryModify slot ({ · with previous := none, next := none })

def tryLinkLast (arena : TileArena) (slot : Nat) : Option TileArena :=
  (arena.tryModify slot ({ · with previous := arena.tail, next := none })).bind fun placed =>
    (placed.tryLinkForward arena.tail (some slot)).map fun linked => { linked with tail := some slot }

theorem tryModify_eq (there : slot < arena.size) (f : TileSlot → TileSlot) :
    arena.tryModify slot f = some (arena.modify slot f) :=
  if_pos there

theorem tryLinkForward_eq {place : Option Nat} (has : arena.Has place) (next : Option Nat) :
    arena.tryLinkForward place next = some (arena.linkForward place next) := by
  cases place with
  | none => rfl
  | some slot => exact tryModify_eq (has slot rfl) _

theorem tryLinkBack_eq {place : Option Nat} (has : arena.Has place) (previous : Option Nat) :
    arena.tryLinkBack place previous = some (arena.linkBack place previous) := by
  cases place with
  | none => rfl
  | some slot => exact tryModify_eq (has slot rfl) _

theorem Threaded.tryUnlink (threaded : arena.Threaded (front ++ slot :: back)) :
    arena.tryUnlink slot = some (arena.unlink slot) := by
  have there : slot < arena.slots.length := threaded.inside slot (List.mem_append_right front List.mem_cons_self)
  have found : arena.slots[slot]? = some arena.slots[slot] := List.getElem?_eq_getElem there
  obtain ⟨first, second⟩ := threaded.beside
  obtain ⟨hasPrevious, hasNext⟩ := threaded.has_beside
  rw [← first.2, before, found, Option.bind_some] at hasPrevious
  rw [← second.1, after, found, Option.bind_some] at hasNext
  have forward := relinked_linkForward arena arena.slots[slot].previous arena.slots[slot].next
  have both := forward.trans (relinked_linkBack _ arena.slots[slot].next arena.slots[slot].previous)
  rw [TileArena.tryUnlink, TileArena.unlink, found, Option.bind_some, tryLinkForward_eq hasPrevious, Option.bind_some,
    tryLinkBack_eq (has_of_relinked forward hasNext), Option.bind_some, tryModify_eq (both.size ▸ there)]

theorem Threaded.tryLinkLast (threaded : arena.Threaded order) (there : slot < arena.size) :
    arena.tryLinkLast slot = some (arena.linkLast slot) := by
  have placed := relinked_modify arena slot ({ · with previous := arena.tail, next := none }) fun _ => rfl
  rw [TileArena.tryLinkLast, tryModify_eq there, Option.bind_some,
    tryLinkForward_eq (has_of_relinked placed threaded.has_tail), Option.map_some]
  rfl

end TileArena

end TileRoom
