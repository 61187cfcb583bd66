import TileRoom.IndexSet

/-! Sets of indices by their members. -/

namespace TileRoom.IndexSet

variable {capacity : Nat}

theorem contains_lt (set : IndexSet capacity) (index : Nat) (member : set.contains index = true) :
    index < capacity := by
  rw [contains, Bool.and_eq_true, decide_eq_true_eq] at member
  exact member.1

theorem contains_insert_iff (set : IndexSet capacity) (index other : Nat) :
    (set.insert index).contains other = true ↔
      set.contains other = true ∨ (index < capacity ∧ other = index) := by
  rw [contains_insert, Bool.or_eq_true, Bool.and_eq_true, decide_eq_true_eq, decide_eq_true_eq]

theorem contains_erase (set : IndexSet capacity) (index other : Nat) :
    (set.erase index).contains other = (set.contains other && !decide (other = index)) := by
  by_cases inside : other < capacity
  · by_cases same : other = index
    · subst same
      simp only [contains_eq_getLsbD, erase, BitVec.getLsbD_and, BitVec.getLsbD_not, getLsbD_bit, inside,
        decide_true, Bool.and_self, Bool.not_true, Bool.and_false]
    · simp only [contains_eq_getLsbD, erase, BitVec.getLsbD_and, BitVec.getLsbD_not, getLsbD_bit, inside,
        same, decide_true, decide_false, Bool.and_false, Bool.not_false, Bool.and_true]
  · simp only [contains, inside, decide_false, Bool.false_and]

theorem contains_erase_iff (set : IndexSet capacity) (index other : Nat) :
    (set.erase index).contains other = true ↔ set.contains other = true ∧ other ≠ index := by
  rw [contains_erase, Bool.and_eq_true, Bool.not_eq_true', decide_eq_false_iff_not]

theorem contains_foldl_insert_iff (indices : List Nat) (set : IndexSet capacity) (index : Nat) :
    (indices.foldl insert set).contains index = true ↔
      set.contains index = true ∨ (index < capacity ∧ index ∈ indices) := by
  induction indices generalizing set with
  | nil => simp
  | cons first rest ih =>
    rw [List.foldl_cons, ih, contains_insert_iff, List.mem_cons]
    constructor
    · rintro ((member | ⟨inside, rfl⟩) | ⟨inside, later⟩)
      · exact Or.inl member
      · exact Or.inr ⟨inside, Or.inl rfl⟩
      · exact Or.inr ⟨inside, Or.inr later⟩
    · rintro (member | ⟨inside, rfl | later⟩)
      · exact Or.inl (Or.inl member)
      · exact Or.inl (Or.inr ⟨inside, rfl⟩)
      · exact Or.inr ⟨inside, later⟩

theorem contains_insertBelow_iff (set : IndexSet capacity) (count index : Nat) :
    (set.insertBelow count).contains index = true ↔
      set.contains index = true ∨ (index < capacity ∧ index < count) := by
  rw [insertBelow, contains_foldl_insert_iff, List.mem_range, Nat.lt_min, and_comm (a := index < count),
    ← and_assoc, and_self]

theorem first?_eq_none_iff (set : IndexSet capacity) :
    set.first? = none ↔ ∀ index, ¬set.contains index = true := by
  rw [first?, List.find?_range_eq_none]
  constructor
  · intro none index member
    have wrong := none index (contains_lt set index member)
    simp [member] at wrong
  · intro none index _
    simpa using none index

theorem first?_eq_some {set : IndexSet capacity} {index : Nat} (found : set.first? = some index) :
    set.contains index = true ∧ ∀ other < index, ¬set.contains other = true := by
  rw [first?, List.find?_range_eq_some] at found
  refine ⟨found.1, ?_⟩
  intro other less
  simpa using found.2.2 other less

theorem filter_first?_eq_none_iff (set : IndexSet capacity) (bound : Nat) :
    set.first?.filter (· < bound) = none ↔ ∀ index < bound, ¬set.contains index = true := by
  cases found : set.first? with
  | none =>
    have none := (first?_eq_none_iff set).1 found
    simp [none]
  | some least =>
    obtain ⟨member, before⟩ := first?_eq_some found
    rw [Option.filter_eq_none_iff]
    constructor
    · intro beyond index inside member
      have above := beyond least rfl
      simp only [decide_eq_true_eq] at above
      exact before index (by omega) member
    · intro none other same
      obtain rfl := Option.some.inj same
      simp only [decide_eq_true_eq]
      exact fun inside => none least inside member

theorem filter_first?_eq_some {set : IndexSet capacity} {bound index : Nat}
    (found : set.first?.filter (· < bound) = some index) :
    set.contains index = true ∧ index < bound := by
  rw [Option.filter_eq_some_iff] at found
  exact ⟨(first?_eq_some found.1).1, of_decide_eq_true found.2⟩

end TileRoom.IndexSet
