import Mathlib.Data.List.Dedup
import TileRoom.Proofs.Threading

/-! An arena as a map in the order of recency. Whatever numbers are entered, written and touched,
the arena lists each number that was entered once, in the order in which the numbers were last
touched, and gives what was last written for a number. It fails for a number that is too large for
its table, and for no other reason. -/

namespace TileRoom

/-- What is done with an arena. A tile is made when its number is entered for the first time, and
written whenever its number is entered. -/
inductive ArenaStep where
  | write (number : UInt64) (f : SeenTile → SeenTile)
  | touch (number : UInt64)

namespace ArenaStep

/-- A table that reaches to the number can be had. -/
def Fits : ArenaStep → Prop
  | .write number _ => number.toNat < SlotTable.maxSize
  | .touch _ => True

/-- The numbers touched so far, once more when one is touched again. Making a tile touches it;
numbers that were never entered cannot be touched. -/
def touched (past : List Nat) : ArenaStep → List Nat
  | .write number _ => if number.toNat ∈ past then past else past ++ [number.toNat]
  | .touch number => if number.toNat ∈ past then past ++ [number.toNat] else past

def touches (steps : List ArenaStep) : List Nat :=
  steps.foldl touched []

/-- What is written for a number. A tile that was not made before is written from scratch. -/
def written (number : Nat) (tile : Option SeenTile) : ArenaStep → Option SeenTile
  | .write other f => if other.toNat = number then some (f (tile.getD {})) else tile
  | .touch _ => tile

theorem mem_touches (steps : List ArenaStep) (number : Nat) :
    number ∈ touches steps ↔ ∃ word f, .write word f ∈ steps ∧ word.toNat = number := by
  induction steps using List.reverseRecOn with
  | nil =>
    apply iff_of_false List.not_mem_nil
    rintro ⟨_, _, member, _⟩
    exact List.not_mem_nil member
  | append_singleton first last ih =>
    have same : touches (first ++ [last]) = touched (touches first) last := List.foldl_concat ..
    rw [same]
    simp only [List.mem_append, List.mem_singleton, or_and_right, exists_or, ← ih]
    cases last with
    | write other f =>
      rw [touched]
      by_cases here : other.toNat = number
      · subst here
        refine iff_of_true ?_ (Or.inr ⟨other, f, rfl, rfl⟩)
        split
        next known => exact known
        next => exact List.mem_append_right _ List.mem_cons_self
      · have apart : ¬∃ word g, write word g = write other f ∧ word.toNat = number := by
          rintro ⟨_, _, same, named⟩
          exact here ((ArenaStep.write.inj same).1 ▸ named)
        rw [or_iff_left apart]
        split
        next => rfl
        next => rw [List.mem_append, List.mem_singleton, or_iff_left (Ne.symm here)]
    | touch other =>
      rw [touched]
      have apart : ¬∃ word g, write word g = touch other ∧ word.toNat = number := by
        rintro ⟨_, _, same, _⟩
        cases same
      rw [or_iff_left apart]
      split
      next known =>
        rw [List.mem_append, List.mem_singleton]
        exact or_iff_left_of_imp fun same => same ▸ known
      next => rfl

end ArenaStep

namespace SlotTable

variable {table : SlotTable} {number slot : Nat}

def tryExtend (table : SlotTable) (number : Nat) : Option SlotTable :=
  if table.size ≤ number then
    if number + 1 ≤ maxSize then some (table.extend number) else none
  else some table

def tryPut (table : SlotTable) (number slot : Nat) : Option SlotTable :=
  (table.tryExtend number).bind fun table =>
    if number < table.size then some { places := table.places.set number (some slot) } else none

theorem tryPut_eq (table : SlotTable) (number slot : Nat) :
    table.tryPut number slot = if table.hasRoom number then some (table.put number slot) else none := by
  have there : number < (table.extend number).size := by
    rw [size_extend]
    omega
  rw [tryPut, tryExtend, hasRoom]
  by_cases inside : number < table.size
  · have same : table.extend number = table := if_neg (Nat.not_le.2 inside)
    rw [if_neg (Nat.not_le.2 inside), Option.bind_some, if_pos inside, decide_eq_true inside, put, same]
    rfl
  · rw [if_pos (Nat.le_of_not_lt inside), decide_eq_false inside, Bool.false_or]
    by_cases fits : number + 1 ≤ maxSize
    · rw [if_pos fits, Option.bind_some, if_pos there, if_pos (decide_eq_true fits)]
      rfl
    · rw [if_neg fits, if_neg (by simpa using fits)]
      rfl

theorem hasRoom_of_find? (known : table.find? number = some slot) : table.hasRoom number = true := by
  have inside := (List.getElem?_eq_some_iff.1 (Option.join_eq_some_iff.1 known)).1
  rw [hasRoom, size, decide_eq_true inside, Bool.true_or]

theorem hasRoom_iff (bounded : table.size ≤ maxSize) : table.hasRoom number = true ↔ number < maxSize := by
  rw [hasRoom, Bool.or_eq_true, decide_eq_true_eq, decide_eq_true_eq]
  omega

end SlotTable

theorem dedup_concat (numbers : List Nat) (number : Nat) :
    (numbers ++ [number]).dedup = numbers.dedup.erase number ++ [number] := by
  induction numbers with
  | nil => rfl
  | cons first rest ih =>
    rw [List.cons_append]
    by_cases again : first ∈ rest
    · rw [List.dedup_cons_of_mem (List.mem_append_left _ again), List.dedup_cons_of_mem again, ih]
    · rw [List.dedup_cons_of_notMem again]
      by_cases same : first = number
      · subst same
        have absent : first ∉ rest.dedup := fun member => again (List.mem_dedup.1 member)
        rw [List.dedup_cons_of_mem (List.mem_append_right _ List.mem_cons_self), ih, List.erase_cons_head,
          List.erase_of_not_mem absent]
      · have fresh : first ∉ rest ++ [number] := by
          rw [List.mem_append, List.mem_singleton, not_or]
          exact ⟨again, same⟩
        rw [List.dedup_cons_of_notMem fresh, ih, List.erase_cons_tail (by simpa using same), List.cons_append]

namespace TileArena

variable {arena : TileArena} {order past : List Nat} {number slot : Nat}

def step (arena : TileArena) : ArenaStep → TileArena
  | .write number f => (arena.insert number.toNat).update number.toNat f
  | .touch number => arena.touch number.toNat

def run (arena : TileArena) (steps : List ArenaStep) : TileArena :=
  steps.foldl step arena

def numberAt (arena : TileArena) (slot : Nat) : Option Nat :=
  (arena.slots[slot]?).map (·.number)

theorem Relinked.numberAt {earlier later : TileArena} (relinked : Relinked earlier later) :
    later.numberAt = earlier.numberAt := by
  have content (arena : TileArena) (slot : Nat) :
      arena.numberAt slot = ((arena.slots.map content)[slot]?).map (·.1) := by
    rw [TileArena.numberAt, List.getElem?_map, Option.map_map]
    rfl
  funext slot
  rw [content, content, relinked.slots]

/-- An arena in which some numbers were touched: every slot is found by its number, and the slots
are threaded in the order in which their numbers were last touched. -/
structure Arranged (arena : TileArena) (past : List Nat) : Prop where
  sound : arena.Sound
  filed : ∀ slot number, arena.numberAt slot = some number → arena.slotOf.find? number = some slot
  threaded : ∃ order, arena.Threaded order ∧ order.Perm (List.range arena.size) ∧
    order.filterMap arena.numberAt = past.dedup

theorem arranged_empty : ({} : TileArena).Arranged [] :=
  ⟨sound_empty, nofun, [], threaded_empty, List.Perm.refl _, rfl⟩

theorem Arranged.slot_iff (arranged : arena.Arranged past) (number slot : Nat) :
    arena.slotOf.find? number = some slot ↔ arena.numberAt slot = some number := by
  constructor
  · intro known
    obtain ⟨found, there, named⟩ := arranged.sound number slot known
    rw [numberAt, there, Option.map_some, named]
  · exact arranged.filed slot number

theorem Arranged.mem_iff (arranged : arena.Arranged past) (number : Nat) :
    number ∈ past ↔ ∃ slot, arena.slotOf.find? number = some slot := by
  obtain ⟨order, _, all, numbers⟩ := arranged.threaded
  rw [← List.mem_dedup, ← numbers, List.mem_filterMap]
  apply exists_congr
  intro slot
  rw [arranged.slot_iff, all.mem_iff, List.mem_range]
  apply and_iff_right_of_imp
  intro there
  obtain ⟨found, place, _⟩ := Option.map_eq_some_iff.1 there
  exact (List.getElem?_eq_some_iff.1 place).1

theorem Arranged.update (arranged : arena.Arranged past) (number : Nat) (f : SeenTile → SeenTile) :
    (arena.update number f).Arranged past := by
  have sound := (update_spec arranged.sound number f).1
  obtain ⟨order, threaded, all, numbers⟩ := arranged.threaded
  unfold TileArena.update at sound ⊢
  split at sound
  next => exact arranged
  next slot known =>
    have same : (arena.modify slot fun found => { found with tile := f found.tile }).numberAt = arena.numberAt := by
      funext other
      rw [numberAt, numberAt, modify, List.getElem?_modify]
      split
      next => cases arena.slots[other]? <;> rfl
      next => cases arena.slots[other]? <;> rfl
    have size : (arena.modify slot fun found => { found with tile := f found.tile }).size = arena.size :=
      List.length_modify ..
    refine ⟨sound, ?_, order, ?_, ?_, ?_⟩
    · rw [same]
      exact arranged.filed
    · apply threaded.congr (Nat.le_of_eq size.symm)
      intro place _
      rw [after_modify, before_modify]
      constructor
      · split
        next here => rw [here]; rfl
        next => rfl
      · split
        next here => rw [here]; rfl
        next => rfl
    · rw [size]
      exact all
    · rw [same]
      exact numbers

def enroll (arena : TileArena) (number : Nat) : TileArena :=
  { arena with
    slots := arena.slots ++ [{ number }]
    slotOf := arena.slotOf.put number arena.size }

theorem insert_new (fresh : arena.slotOf.find? number = none) :
    arena.insert number = (arena.enroll number).linkLast arena.size := by
  rw [TileArena.insert, if_neg (Option.not_isSome_iff_eq_none.2 fresh)]
  rfl

theorem size_enroll (arena : TileArena) (number : Nat) : (arena.enroll number).size = arena.size + 1 :=
  List.length_append

theorem slots_enroll (there : slot < arena.size) (number : Nat) :
    (arena.enroll number).slots[slot]? = arena.slots[slot]? :=
  List.getElem?_append_left there

theorem slots_enroll_new (arena : TileArena) (number : Nat) :
    (arena.enroll number).slots[arena.size]? = some { number } :=
  List.getElem?_concat_length

theorem Threaded.enroll (threaded : arena.Threaded order) (number : Nat) : (arena.enroll number).Threaded order := by
  apply threaded.congr
  · rw [size_enroll]
    exact Nat.le_succ _
  · intro place has
    cases place with
    | none => exact ⟨rfl, rfl⟩
    | some other =>
      rw [after, after, before, before, slots_enroll (has other rfl)]
      exact ⟨rfl, rfl⟩

theorem Arranged.filed_enroll (arranged : arena.Arranged past) (fresh : arena.slotOf.find? number = none)
    (slot other : Nat) (place : (arena.enroll number).numberAt slot = some other) :
    (arena.enroll number).slotOf.find? other = some slot := by
  rw [numberAt] at place
  rw [TileArena.enroll, SlotTable.find?_put]
  rcases Nat.lt_or_ge slot arena.size with there | beyond
  · rw [slots_enroll there] at place
    have filed := arranged.filed slot other place
    have apart : number ≠ other := by
      rintro rfl
      cases fresh.symm.trans filed
    rw [if_neg apart, filed]
  · obtain ⟨found, inside, named⟩ := Option.map_eq_some_iff.1 place
    have within : slot < (arena.enroll number).size := (List.getElem?_eq_some_iff.1 inside).1
    have size := arena.size_enroll number
    obtain rfl : slot = arena.size := by omega
    rw [slots_enroll_new] at inside
    rw [if_pos ((congrArg TileSlot.number (Option.some.inj inside)).trans named)]

theorem Arranged.insert (arranged : arena.Arranged past) (number : Nat) :
    (arena.insert number).Arranged (if number ∈ past then past else past ++ [number]) := by
  have sound := (insert_spec arranged.sound number).1
  obtain ⟨order, threaded, all, numbers⟩ := arranged.threaded
  cases known : arena.slotOf.find? number with
  | some slot =>
    rw [if_pos ((arranged.mem_iff number).2 ⟨slot, known⟩), TileArena.insert,
      if_pos (Option.isSome_iff_exists.2 ⟨slot, known⟩)]
    exact arranged
  | none =>
    have fresh : number ∉ past := by
      rw [arranged.mem_iff, known]
      exact nofun
    have relinked := relinked_linkLast (arena.enroll number) arena.size
    have size := arena.size_enroll number
    rw [insert_new known] at sound
    rw [if_neg fresh, insert_new known]
    refine ⟨sound, ?_, order ++ [arena.size], ?_, ?_, ?_⟩
    · rw [relinked.numberAt, relinked.slotOf]
      exact arranged.filed_enroll known
    · apply (threaded.enroll number).linkLast
      · omega
      · exact fun member => Nat.lt_irrefl _ (threaded.inside arena.size member)
    · rw [relinked.size, size, List.range_succ]
      exact all.append_right [arena.size]
    · have same : order.filterMap (arena.enroll number).numberAt = order.filterMap arena.numberAt := by
        apply List.filterMap_congr
        intro slot member
        rw [numberAt, numberAt, slots_enroll (threaded.inside slot member)]
      have last : (arena.enroll number).numberAt arena.size = some number := by
        rw [numberAt, slots_enroll_new, Option.map_some]
      have absent : number ∉ past.dedup := fun member => fresh (List.mem_dedup.1 member)
      rw [relinked.numberAt, List.filterMap_append, same, numbers, List.filterMap_cons, last, List.filterMap_nil,
        dedup_concat, List.erase_of_not_mem absent]

theorem Arranged.touch (arranged : arena.Arranged past) (number : Nat) :
    (arena.touch number).Arranged (if number ∈ past then past ++ [number] else past) := by
  have relinked := relinked_touch arena number
  obtain ⟨order, threaded, all, numbers⟩ := arranged.threaded
  cases known : arena.slotOf.find? number with
  | none =>
    have fresh : number ∉ past := by
      rw [arranged.mem_iff, known]
      exact nofun
    rw [if_neg fresh, TileArena.touch, known]
    exact arranged
  | some slot =>
    have place := (arranged.slot_iff number slot).1 known
    have member : slot ∈ order := by
      rw [all.mem_iff, List.mem_range]
      obtain ⟨found, there, _⟩ := Option.map_eq_some_iff.1 place
      exact (List.getElem?_eq_some_iff.1 there).1
    -- The slot leaves its place between these, and its number the place between their numbers.
    obtain ⟨front, back, rfl⟩ := List.append_of_mem member
    rw [if_pos ((arranged.mem_iff number).2 ⟨slot, known⟩)]
    refine ⟨relinked.sound arranged.sound, ?_, front ++ back ++ [slot], ?_, ?_, ?_⟩
    · rw [relinked.numberAt, relinked.slotOf]
      exact arranged.filed
    · rw [TileArena.touch, known]
      exact threaded.touch
    · rw [relinked.size]
      calc
        (front ++ back ++ [slot]).Perm (slot :: (front ++ back)) := List.perm_append_singleton slot (front ++ back)
        List.Perm _ (front ++ slot :: back) := List.perm_middle.symm
        List.Perm _ (List.range arena.size) := all
    · have distinct : (past.dedup).Nodup := List.nodup_dedup past
      rw [← numbers, List.filterMap_append, List.filterMap_cons, place] at distinct
      have absent : number ∉ front.filterMap arena.numberAt := fun old =>
        (List.nodup_append.1 distinct).2.2 number old number List.mem_cons_self rfl
      rw [relinked.numberAt, dedup_concat, ← numbers]
      simp only [List.filterMap_append, List.filterMap_cons, place, List.filterMap_nil]
      rw [List.erase_append_right _ absent, List.erase_cons_head]

theorem Arranged.step (arranged : arena.Arranged past) (step : ArenaStep) :
    (arena.step step).Arranged (step.touched past) := by
  cases step with
  | write number f => exact (arranged.insert number.toNat).update number.toNat f
  | touch number => exact arranged.touch number.toNat

theorem arranged_run (steps : List ArenaStep) : (run {} steps).Arranged (ArenaStep.touches steps) := by
  have later (arena : TileArena) (past : List Nat) (arranged : arena.Arranged past) :
      (arena.run steps).Arranged (steps.foldl ArenaStep.touched past) := by
    induction steps generalizing arena past with
    | nil => exact arranged
    | cons step rest ih => exact ih _ _ (arranged.step step)
  exact later {} [] arranged_empty

theorem Arranged.lt_of_find? (arranged : arena.Arranged past) (known : arena.slotOf.find? number = some slot) :
    slot < arena.size := by
  obtain ⟨found, there, _⟩ := arranged.sound number slot known
  exact (List.getElem?_eq_some_iff.1 there).1

/-- A step that fails only when its number is too large for the table. -/
def step? (arena : TileArena) : ArenaStep → Option TileArena
  | .write number f => (arena.insert? number.toNat).map (·.update number.toNat f)
  | .touch number => some (arena.touch number.toNat)

def tryEnroll (arena : TileArena) (number : Nat) : Option TileArena :=
  (arena.slotOf.tryPut number arena.size).map fun slotOf =>
    { arena with slots := arena.slots ++ [{ number }], slotOf }

/-- A step that fails when it looks at a slot or at a place that is not there. -/
def tryStep (arena : TileArena) : ArenaStep → Option TileArena
  | .write number f =>
      let made := if (arena.slotOf.find? number.toNat).isSome then some arena
        else (arena.tryEnroll number.toNat).bind (·.tryLinkLast arena.size)
      made.bind fun made => (made.slotOf.find? number.toNat).bind fun slot =>
        made.tryModify slot fun found => { found with tile := f found.tile }
  | .touch number =>
      match arena.slotOf.find? number.toNat with
      | none => some arena
      | some slot =>
          if arena.tail = some slot then some arena else (arena.tryUnlink slot).bind (·.tryLinkLast slot)

def tryRun (arena : TileArena) (steps : List ArenaStep) : Option TileArena :=
  steps.foldlM tryStep arena

theorem tryEnroll_eq (arena : TileArena) (number : Nat) :
    arena.tryEnroll number = if arena.slotOf.hasRoom number then some (arena.enroll number) else none := by
  rw [tryEnroll, SlotTable.tryPut_eq]
  split <;> rfl

theorem Arranged.tryInsert (arranged : arena.Arranged past) (number : Nat) :
    (if (arena.slotOf.find? number).isSome then some arena
      else (arena.tryEnroll number).bind (·.tryLinkLast arena.size)) = arena.insert? number := by
  obtain ⟨order, threaded, -⟩ := arranged.threaded
  rw [insert?]
  cases known : arena.slotOf.find? number with
  | some slot =>
    rw [if_pos Option.isSome_some, if_pos (SlotTable.hasRoom_of_find? known), TileArena.insert, known,
      if_pos Option.isSome_some]
  | none =>
    have there : arena.size < (arena.enroll number).size := arena.size_enroll number ▸ Nat.lt_succ_self _
    rw [if_neg (Option.not_isSome_iff_eq_none.2 rfl), tryEnroll_eq]
    split
    next => rw [Option.bind_some, (threaded.enroll number).tryLinkLast there, insert_new known]
    next => rfl

theorem Arranged.tryStep (arranged : arena.Arranged past) (step : ArenaStep) :
    arena.tryStep step = arena.step? step := by
  obtain ⟨order, threaded, all, _⟩ := arranged.threaded
  cases step with
  | write word f =>
    generalize same : word.toNat = number
    simp only [TileArena.tryStep, TileArena.step?, same, arranged.tryInsert]
    rw [insert?]
    split
    next =>
      have inserted := arranged.insert number
      have entered : number ∈ if number ∈ past then past else past ++ [number] := by
        split
        next member => exact member
        next => exact List.mem_append_right past List.mem_cons_self
      obtain ⟨slot, known⟩ := (inserted.mem_iff number).1 entered
      rw [Option.bind_some, known, Option.bind_some, tryModify_eq (inserted.lt_of_find? known), Option.map_some,
        TileArena.update, known]
    next => rfl
  | touch word =>
    rw [TileArena.tryStep, TileArena.step?, TileArena.touch]
    cases known : arena.slotOf.find? word.toNat with
    | none => rfl
    | some slot =>
      have there := arranged.lt_of_find? known
      obtain ⟨front, back, rfl⟩ := List.append_of_mem (all.mem_iff.2 (List.mem_range.2 there))
      dsimp only
      split
      next => rfl
      next =>
        have size := (relinked_unlink arena slot).size
        rw [threaded.tryUnlink, Option.bind_some, threaded.unlink.tryLinkLast (size ▸ there)]

theorem slotOf_update (arena : TileArena) (number : Nat) (f : SeenTile → SeenTile) :
    (arena.update number f).slotOf = arena.slotOf := by
  unfold update
  split <;> rfl

theorem size_step_le (bounded : arena.slotOf.size ≤ SlotTable.maxSize) {step : ArenaStep} (fits : step.Fits) :
    (arena.step step).slotOf.size ≤ SlotTable.maxSize := by
  cases step with
  | write word f =>
    rw [step, slotOf_update]
    cases known : arena.slotOf.find? word.toNat with
    | some slot =>
      rw [TileArena.insert, if_pos (Option.isSome_iff_exists.2 ⟨slot, known⟩)]
      exact bounded
    | none =>
      rw [insert_new known, (relinked_linkLast _ _).slotOf, enroll, SlotTable.size_put]
      exact Nat.max_le.2 ⟨bounded, fits⟩
  | touch word =>
    rw [step, (relinked_touch arena word.toNat).slotOf]
    exact bounded

theorem step?_eq (bounded : arena.slotOf.size ≤ SlotTable.maxSize) (step : ArenaStep) :
    step.Fits ∧ arena.step? step = some (arena.step step) ∨ ¬step.Fits ∧ arena.step? step = none := by
  cases step with
  | write word f =>
    have room := @SlotTable.hasRoom_iff _ word.toNat bounded
    rw [TileArena.step?, insert?]
    by_cases fits : word.toNat < SlotTable.maxSize
    · rw [if_pos (room.2 fits)]
      exact Or.inl ⟨fits, rfl⟩
    · rw [if_neg fun has => fits (room.1 has)]
      exact Or.inr ⟨fits, rfl⟩
  | touch word => exact Or.inl ⟨trivial, rfl⟩

theorem Arranged.tryRun (arranged : arena.Arranged past) (bounded : arena.slotOf.size ≤ SlotTable.maxSize)
    (steps : List ArenaStep) :
    (∀ step ∈ steps, step.Fits) ∧ arena.tryRun steps = some (arena.run steps) ∨
      (∃ step ∈ steps, ¬step.Fits) ∧ arena.tryRun steps = none := by
  induction steps generalizing arena past with
  | nil => exact Or.inl ⟨List.forall_mem_nil _, rfl⟩
  | cons step rest ih =>
    rw [TileArena.tryRun, List.foldlM_cons, arranged.tryStep]
    rcases step?_eq bounded step with ⟨fits, taken⟩ | ⟨large, refused⟩
    · rw [taken, List.forall_mem_cons]
      rcases ih (arranged.step step) (size_step_le bounded fits) with ⟨others, run⟩ | ⟨⟨other, member, large⟩, refused⟩
      · exact Or.inl ⟨⟨fits, others⟩, run⟩
      · exact Or.inr ⟨⟨other, List.mem_cons_of_mem step member, large⟩, refused⟩
    · rw [refused]
      exact Or.inr ⟨⟨step, List.mem_cons_self, large⟩, rfl⟩

theorem Arranged.get?_step (arranged : arena.Arranged past) (step : ArenaStep) (number : Nat) :
    (arena.step step).get? number = step.written number (arena.get? number) := by
  cases step with
  | write other f =>
    obtain ⟨sound, made⟩ := insert_spec arranged.sound other.toNat
    rw [TileArena.step, (update_spec sound other.toNat f).2, made, made, if_pos rfl, ArenaStep.written]
    by_cases here : number = other.toNat
    · rw [if_pos here, if_pos here.symm, here, Option.map_some]
    · rw [if_neg here, if_neg here, if_neg (Ne.symm here)]
  | touch other => exact (relinked_touch arena other.toNat).get? number

theorem get?_run (steps : List ArenaStep) (number : Nat) :
    (run {} steps).get? number = steps.foldl (ArenaStep.written number) none := by
  have later (arena : TileArena) (past : List Nat) (arranged : arena.Arranged past) :
      (arena.run steps).get? number = steps.foldl (ArenaStep.written number) (arena.get? number) := by
    induction steps generalizing arena past with
    | nil => rfl
    | cons step rest ih =>
      have next := ih _ _ (arranged.step step)
      rwa [arranged.get?_step] at next
  exact later {} [] arranged_empty

theorem Threaded.toList (threaded : arena.Threaded order) (all : order.Perm (List.range arena.size)) :
    arena.toList = order.filterMap fun slot => (arena.slots[slot]?).map content := by
  have enough : order.length ≤ arena.size := Nat.le_of_eq (all.length_eq.trans List.length_range)
  rw [TileArena.toList, threaded.follow enough, List.map_filterMap]
  rfl

theorem Threaded.toList_mirror (threaded : arena.Threaded order) (all : order.Perm (List.range arena.size)) :
    arena.mirror.toList = arena.toList.reverse := by
  have size : arena.mirror.size = arena.size := List.length_map ..
  have same (slot : Nat) : (arena.mirror.slots[slot]?).map content = (arena.slots[slot]?).map content := by
    rw [TileArena.mirror, List.getElem?_map, Option.map_map]
    rfl
  rw [threaded.mirror.toList (size ▸ (List.reverse_perm order).trans all), threaded.toList all]
  simp only [same, List.filterMap_reverse]

theorem Arranged.mem_toList (arranged : arena.Arranged past) (number : Nat) (tile : SeenTile) :
    (number, tile) ∈ arena.toList ↔ arena.get? number = some tile := by
  obtain ⟨order, threaded, all, _⟩ := arranged.threaded
  rw [threaded.toList all, List.mem_filterMap, TileArena.get?, Option.bind_eq_some_iff]
  apply exists_congr
  intro slot
  constructor
  · rintro ⟨_, place⟩
    obtain ⟨found, there, same⟩ := Option.map_eq_some_iff.1 place
    obtain ⟨named, holds⟩ := Prod.mk.inj same
    refine ⟨arranged.filed slot number ?_, ?_⟩
    · rw [numberAt, there, Option.map_some, named]
    · rw [there, Option.map_some, holds]
  · rintro ⟨known, place⟩
    obtain ⟨found, there, holds⟩ := Option.map_eq_some_iff.1 place
    obtain ⟨other, also, named⟩ := arranged.sound number slot known
    obtain rfl := Option.some.inj (there.symm.trans also)
    refine ⟨all.mem_iff.2 (List.mem_range.2 (arranged.lt_of_find? known)), ?_⟩
    rw [there, Option.map_some, content, named, holds]

structure Remembers (arena : TileArena) (steps : List ArenaStep) : Prop where
  inside : ∀ index ∈ arena.indices, index < arena.size
  safe : ∀ step, arena.tryStep step = arena.step? step
  threaded : ∃ order, arena.Threaded order ∧ order.Perm (List.range arena.size)
  table : ∀ number, (∃ slot, arena.slotOf.find? number = some slot) ↔
    ∃ word f, .write word f ∈ steps ∧ word.toNat = number
  filed : ∀ number slot, arena.slotOf.find? number = some slot ↔ arena.numberAt slot = some number
  complete : ∀ more, arena.follow (arena.size + more) arena.head = arena.follow arena.size arena.head
  recency : arena.toList.map (·.1) = (ArenaStep.touches steps).dedup
  backwards : arena.mirror.toList = arena.toList.reverse
  listed : ∀ number tile, (number, tile) ∈ arena.toList ↔ arena.get? number = some tile
  written : ∀ number, arena.get? number = steps.foldl (ArenaStep.written number) none

theorem remembers (steps : List ArenaStep) : (run {} steps).Remembers steps := by
  have arranged := arranged_run steps
  generalize same : run {} steps = arena at arranged ⊢
  obtain ⟨order, threaded, all, numbers⟩ := arranged.threaded
  have length : order.length = arena.size := all.length_eq.trans List.length_range
  constructor
  case inside => exact threaded.indices all fun number slot => arranged.lt_of_find?
  case safe => exact arranged.tryStep
  case threaded => exact ⟨order, threaded, all⟩
  case table =>
    intro number
    rw [← ArenaStep.mem_touches, arranged.mem_iff]
  case filed => exact arranged.slot_iff
  case complete =>
    intro more
    rw [threaded.follow (length ▸ Nat.le_add_right _ more), threaded.follow (Nat.le_of_eq length)]
  case recency =>
    rw [threaded.toList all, List.map_filterMap, ← numbers]
    congr 1
    funext slot
    rw [Option.map_map]
    rfl
  case backwards => exact threaded.toList_mirror all
  case listed => exact arranged.mem_toList
  case written =>
    intro number
    rw [← same]
    exact get?_run steps number

/-- An arena is a map in the order of recency, whatever is entered, written and touched, as long as
the numbers fit. It fails when one does not. -/
theorem run_remembers (steps : List ArenaStep) :
    (∀ step ∈ steps, step.Fits) ∧ (∃ arena, tryRun {} steps = some arena ∧ arena.Remembers steps) ∨
      (∃ step ∈ steps, ¬step.Fits) ∧ tryRun {} steps = none := by
  rcases arranged_empty.tryRun (Nat.zero_le _) steps with ⟨fit, run⟩ | refused
  · exact Or.inl ⟨fit, _, run, remembers steps⟩
  · exact Or.inr refused

/-- The largest word is a number that cannot be entered. -/
theorem largest_number_refused :
    ¬∃ arena, tryRun {} [.write 0xFFFFFFFFFFFFFFFF id] = some arena ∧
      arena.Remembers [.write 0xFFFFFFFFFFFFFFFF id] := by
  rintro ⟨_, run, _⟩
  cases run

example : (tryRun {} [.write 3 id, .write 1 id, .touch 3, .write 2 id, .touch 7]).map (·.toList.map (·.1)) =
    some [1, 3, 2] := by
  decide

end TileArena

end TileRoom
