import TileRoom.Client.TileArena

/-! The tiles of an arena by their numbers. Each number leads to a slot of its own, and
the links between the slots have no part in what a tile is. -/

namespace TileRoom.TileArena

/-- Every number in the table leads to the slot that was made for it. -/
def Sound (arena : TileArena) : Prop :=
  ∀ number slot, arena.slotOf.find? number = some slot →
    ∃ found, arena.slots[slot]? = some found ∧ found.number = number

def content (slot : TileSlot) : Nat × SeenTile :=
  (slot.number, slot.tile)

/-- Two arenas that differ in their links alone. -/
structure Relinked (before after : TileArena) : Prop where
  slotOf : after.slotOf = before.slotOf
  slots : after.slots.map content = before.slots.map content

theorem Relinked.trans {first second third : TileArena} (one : Relinked first second)
    (two : Relinked second third) : Relinked first third :=
  ⟨two.slotOf.trans one.slotOf, two.slots.trans one.slots⟩

theorem relinked_modify (arena : TileArena) (slot : Nat) (f : TileSlot → TileSlot)
    (same : ∀ found, content (f found) = content found) : Relinked arena (arena.modify slot f) := by
  refine ⟨rfl, List.ext_getElem? fun index => ?_⟩
  simp only [modify, List.getElem?_map, List.getElem?_modify]
  cases arena.slots[index]? with
  | none => rfl
  | some found =>
    by_cases here : slot = index
    · simp [here, same]
    · simp [here]

theorem relinked_linkForward (arena : TileArena) (before next : Option Nat) :
    Relinked arena (arena.linkForward before next) := by
  cases before with
  | none => exact ⟨rfl, rfl⟩
  | some slot => exact relinked_modify arena slot _ fun _ => rfl

theorem relinked_linkBack (arena : TileArena) (after previous : Option Nat) :
    Relinked arena (arena.linkBack after previous) := by
  cases after with
  | none => exact ⟨rfl, rfl⟩
  | some slot => exact relinked_modify arena slot _ fun _ => rfl

theorem relinked_unlink (arena : TileArena) (slot : Nat) : Relinked arena (arena.unlink slot) := by
  unfold unlink
  split
  · exact ⟨rfl, rfl⟩
  · exact ((relinked_linkForward arena _ _).trans (relinked_linkBack _ _ _)).trans
      (relinked_modify _ slot _ fun _ => rfl)

theorem relinked_linkLast (arena : TileArena) (slot : Nat) : Relinked arena (arena.linkLast slot) := by
  have placed := relinked_modify arena slot ({ · with previous := arena.tail, next := none }) fun _ => rfl
  have linked := placed.trans (relinked_linkForward _ arena.tail (some slot))
  exact ⟨linked.slotOf, linked.slots⟩

theorem relinked_touch (arena : TileArena) (number : Nat) : Relinked arena (arena.touch number) := by
  unfold touch
  split
  · exact ⟨rfl, rfl⟩
  · split
    · exact ⟨rfl, rfl⟩
    · exact (relinked_unlink arena _).trans (relinked_linkLast _ _)

theorem get?_eq (arena : TileArena) (number : Nat) :
    arena.get? number =
      (arena.slotOf.find? number).bind fun slot => ((arena.slots.map content)[slot]?).map (·.2) := by
  simp only [get?, List.getElem?_map, Option.map_map]
  rfl

theorem sound_iff (arena : TileArena) :
    arena.Sound ↔ ∀ number slot, arena.slotOf.find? number = some slot →
      ∃ tile, (arena.slots.map content)[slot]? = some (number, tile) := by
  apply forall_congr'
  intro number
  apply forall_congr'
  intro slot
  apply imp_congr_right
  intro held
  simp only [List.getElem?_map]
  cases arena.slots[slot]? with
  | none => simp
  | some found => simp [content, eq_comm]

theorem Relinked.get? {before after : TileArena} (relinked : Relinked before after) (number : Nat) :
    after.get? number = before.get? number := by
  rw [get?_eq, get?_eq, relinked.slotOf, relinked.slots]

theorem Relinked.sound {before after : TileArena} (relinked : Relinked before after)
    (sound : before.Sound) : after.Sound := by
  rw [sound_iff] at sound ⊢
  rw [relinked.slotOf, relinked.slots]
  exact sound

theorem sound_empty : ({} : TileArena).Sound := fun _ _ found => nomatch found

theorem insert_spec {arena : TileArena} (sound : arena.Sound) (number : Nat) :
    (arena.insert number).Sound ∧ ∀ other, (arena.insert number).get? other =
      if other = number then some ((arena.get? number).getD {}) else arena.get? other := by
  unfold insert
  split
  · rename_i known
    refine ⟨sound, fun other => ?_⟩
    split
    · rename_i same
      obtain ⟨slot, place⟩ := Option.isSome_iff_exists.1 known
      obtain ⟨found, there, _⟩ := sound number slot place
      rw [same, get?, place, Option.bind_some, there]
      rfl
    · rfl
  · rename_i unknown
    have absent : arena.slotOf.find? number = none := Option.not_isSome_iff_eq_none.1 unknown
    refine ⟨(relinked_linkLast _ _).sound fun other slot found => ?_, fun other => ?_⟩
    · simp only [SlotTable.find?_put] at found
      split at found
      · rename_i same
        obtain rfl := Option.some.inj found
        exact ⟨{ number := number }, List.getElem?_concat_length, same⟩
      · obtain ⟨old, place, named⟩ := sound other slot found
        have inside := (List.getElem?_eq_some_iff.1 place).1
        exact ⟨old, by rw [List.getElem?_append_left inside, place], named⟩
    · rw [(relinked_linkLast _ _).get?, get?, get?, get?, absent]
      simp only [SlotTable.find?_put, eq_comm (a := number)]
      by_cases same : other = number
      · simp only [if_pos same, Option.bind_some, List.getElem?_concat_length]
        rfl
      · simp only [if_neg same]
        cases place : arena.slotOf.find? other with
        | none => rfl
        | some slot =>
          obtain ⟨old, known, _⟩ := sound other slot place
          have inside := (List.getElem?_eq_some_iff.1 known).1
          simp only [Option.bind_some, List.getElem?_append_left inside]

theorem update_spec {arena : TileArena} (sound : arena.Sound) (number : Nat) (f : SeenTile → SeenTile) :
    (arena.update number f).Sound ∧ ∀ other, (arena.update number f).get? other =
      if other = number then (arena.get? number).map f else arena.get? other := by
  unfold update
  cases place : arena.slotOf.find? number with
  | none =>
    refine ⟨sound, fun other => ?_⟩
    by_cases same : other = number
    · simp only [same, get?, place, Option.bind_none, Option.map_none, ite_self]
    · exact (if_neg same).symm
  | some slot =>
    obtain ⟨found, there, named⟩ := sound number slot place
    constructor
    · intro other target hit
      obtain ⟨old, known, same⟩ := sound other target hit
      refine ⟨_, by simp only [modify, List.getElem?_modify, known]; rfl, ?_⟩
      split <;> exact same
    · intro other
      simp only [get?, modify, List.getElem?_modify]
      by_cases same : other = number
      · subst same
        simp [place, there]
      · rw [if_neg same]
        cases target : arena.slotOf.find? other with
        | none => rfl
        | some index =>
          -- Slots are made for one number each.
          have apart : slot ≠ index := by
            rintro rfl
            obtain ⟨old, known, other_named⟩ := sound other slot target
            rw [there] at known
            rw [← Option.some.inj known, named] at other_named
            exact same other_named.symm
          simp only [Option.bind_some, if_neg apart]
          cases arena.slots[index]? <;> rfl

theorem place_spec {arena : TileArena} (sound : arena.Sound) (number : Nat) (tile : SeenTile) :
    (((arena.insert number).update number fun _ => tile).touch number).Sound ∧
      ∀ other, (((arena.insert number).update number fun _ => tile).touch number).get? other =
        if other = number then some tile else arena.get? other := by
  obtain ⟨inserted, made⟩ := insert_spec sound number
  obtain ⟨updated, reads⟩ := update_spec inserted number fun _ => tile
  have relinked := relinked_touch ((arena.insert number).update number fun _ => tile) number
  refine ⟨relinked.sound updated, ?_⟩
  intro other
  rw [relinked.get?, reads, made, made, if_pos rfl]
  split <;> rfl

end TileRoom.TileArena
