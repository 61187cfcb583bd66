import Mathlib.Algebra.GroupWithZero.Nat
import Mathlib.Data.Finset.Card
import Mathlib.Data.Finset.Range
import Mathlib.Order.Bounds.Basic
import TileRoom.Proofs.IndexSets

/-! Sets of indices held in words of 64 bits. Whatever calls follow each other, the words hold the
members that the calls describe, as far as there is room for them, and they answer as the sets
that have one bit for each index. -/

namespace TileRoom

inductive IndexCall where
  | put (index : Nat) (present : Bool)
  | insertBelow (count : Nat)
  | clear

namespace IndexCall

/-- The members of a set that has room for every index, after a call. -/
def change (members : Finset Nat) : IndexCall → Finset Nat
  | .put index true => insert index members
  | .put index false => members.erase index
  | .insertBelow count => members ∪ Finset.range count
  | .clear => ∅

def described (calls : List IndexCall) : Finset Nat :=
  calls.foldl change ∅

end IndexCall

/-- A set of indices in words of 64 bits; an index is a bit of the word at a 64th of it. -/
structure WordSet (width : Nat) where
  words : Vector (BitVec 64) width
deriving DecidableEq

namespace WordSet

variable {width : Nat}

def empty : WordSet width := ⟨Vector.replicate width 0#64⟩

def mask (index : Nat) : BitVec 64 := 1#64 <<< (index % 64)

def contains (set : WordSet width) (index : Nat) : Bool :=
  set.words[index / 64]?.any fun word => word &&& mask index != 0#64

def write (word : BitVec 64) (index : Nat) (present : Bool) : BitVec 64 :=
  if present then word ||| mask index else word &&& ~~~mask index

def put (set : WordSet width) (index : Nat) (present : Bool) : WordSet width :=
  if inside : index / 64 < width then
    ⟨set.words.set (index / 64) (write set.words[index / 64] index present)⟩
  else set

def insertBelow (set : WordSet width) (count : Nat) : WordSet width :=
  (List.range (min count (64 * width))).foldl (fun set index => set.put index true) set

def first? (set : WordSet width) : Option Nat :=
  (set.words.toList.zipIdx.find? (·.1 != 0#64)).map fun found => found.2 * 64 + found.1.ctz.toNat

def count (set : WordSet width) : Nat :=
  (set.words.toList.map (·.cpop.toNat)).sum

def isEmpty (set : WordSet width) : Bool :=
  set.words.toList.all (· == 0#64)

def step (set : WordSet width) : IndexCall → WordSet width
  | .put index present => set.put index present
  | .insertBelow count => set.insertBelow count
  | .clear => empty

def run (set : WordSet width) (calls : List IndexCall) : WordSet width :=
  calls.foldl step set

theorem mask_eq (index : Nat) : mask index = BitVec.twoPow 64 (index % 64) :=
  rfl

theorem getLsbD_mask (index position : Nat) :
    (mask index).getLsbD position = decide (position = index % 64) := by
  have inside : index % 64 < 64 := Nat.mod_lt index (by decide)
  simp only [mask_eq, BitVec.getLsbD_twoPow, inside, decide_true, Bool.true_and, eq_comm]

theorem and_mask (word : BitVec 64) (index : Nat) :
    (word &&& mask index != 0#64) = word.getLsbD (index % 64) := by
  rw [mask_eq, BitVec.and_twoPow]
  cases word.getLsbD (index % 64) with
  | false => rfl
  | true =>
    rw [if_pos rfl, bne_iff_ne]
    intro zero
    have bit := getLsbD_mask index (index % 64)
    rw [mask_eq, zero, BitVec.getLsbD_zero, decide_eq_true rfl] at bit
    cases bit

theorem contains_eq (set : WordSet width) (index : Nat) :
    set.contains index = set.words[index / 64]?.any (·.getLsbD (index % 64)) := by
  simp only [contains, and_mask]

theorem contains_empty (index : Nat) : (empty : WordSet width).contains index = false := by
  rw [contains_eq, empty, Vector.getElem?_replicate]
  split
  · exact BitVec.getLsbD_zero
  · rfl

theorem getLsbD_write (word : BitVec 64) (index : Nat) (present : Bool) {position : Nat} (low : position < 64) :
    (write word index present).getLsbD position =
      if position = index % 64 then present else word.getLsbD position := by
  cases present with
  | true =>
    rw [write, if_pos rfl, BitVec.getLsbD_or, getLsbD_mask]
    by_cases here : position = index % 64 <;> simp only [here, decide_true, decide_false, if_true, if_false,
      Bool.or_true, Bool.or_false]
  | false =>
    rw [write, if_neg Bool.false_ne_true, BitVec.getLsbD_and, BitVec.getLsbD_not, getLsbD_mask]
    by_cases here : position = index % 64 <;> simp only [here, low, decide_true, decide_false, if_true, if_false,
      Bool.not_true, Bool.not_false, Bool.and_false, Bool.and_true]

theorem contains_put (set : WordSet width) (index other : Nat) (present : Bool) :
    (set.put index present).contains other =
      if other = index ∧ index < 64 * width then present else set.contains other := by
  rw [put]
  split
  next inside =>
    rw [contains_eq, contains_eq, Vector.getElem?_set]
    by_cases place : index / 64 = other / 64
    · have low : other % 64 < 64 := Nat.mod_lt other (by decide)
      have same_iff : other % 64 = index % 64 ↔ other = index ∧ index < 64 * width := by omega
      have there : set.words[other / 64]? = some set.words[index / 64] := by
        rw [← place, Vector.getElem?_eq_getElem]
      simp only [if_pos place, there, Option.any_some, getLsbD_write _ _ _ low, same_iff]
    · have apart : ¬(other = index ∧ index < 64 * width) := by omega
      rw [if_neg place, if_neg apart]
  next beyond =>
    have outside : ¬(other = index ∧ index < 64 * width) := by omega
    rw [if_neg outside]

def bitAt (words : List (BitVec 64)) (index : Nat) : Bool :=
  words[index / 64]?.any (·.getLsbD (index % 64))

theorem contains_eq_bitAt (set : WordSet width) : set.contains = bitAt set.words.toList := by
  funext index
  rw [contains_eq, bitAt, Vector.getElem?_toList]

theorem countP_cpopNatRec (word : BitVec 64) (count : Nat) :
    (List.range count).countP word.getLsbD = word.cpopNatRec count 0 := by
  induction count with
  | zero => rfl
  | succ count ih =>
    rw [List.range_succ, List.countP_append, ih, List.countP_singleton, BitVec.cpopNatRec_succ,
      BitVec.cpopNatRec_add]
    cases word.getLsbD count <;> rfl

theorem countP_bitAt (words : List (BitVec 64)) :
    (List.range (64 * words.length)).countP (bitAt words) = (words.map (·.cpop.toNat)).sum := by
  induction words with
  | nil => rfl
  | cons word rest ih =>
    have low : (List.range 64).countP (bitAt (word :: rest)) = (List.range 64).countP word.getLsbD := by
      apply List.countP_congr
      intro index inside
      rw [List.mem_range] at inside
      rw [bitAt, Nat.div_eq_of_lt inside, Nat.mod_eq_of_lt inside]
      rfl
    have high : bitAt (word :: rest) ∘ (64 + ·) = bitAt rest := by
      funext index
      have place : (64 + index) / 64 = index / 64 + 1 := by omega
      have position : (64 + index) % 64 = index % 64 := by omega
      rw [Function.comp_apply, bitAt, place, position]
      rfl
    calc
      (List.range (64 * (rest.length + 1))).countP (bitAt (word :: rest)) =
          (List.range (64 + 64 * rest.length)).countP (bitAt (word :: rest)) := by
        rw [Nat.mul_add, Nat.add_comm]
      _ = (List.range 64).countP word.getLsbD + (List.range (64 * rest.length)).countP (bitAt rest) := by
        rw [List.range_add, List.countP_append, low, List.countP_map, high]
      _ = ((word :: rest).map (·.cpop.toNat)).sum := by
        rw [ih, List.map_cons, List.sum_cons, BitVec.toNat_cpop, countP_cpopNatRec]

theorem bitAt_eq_true_iff {words : List (BitVec 64)} {index : Nat} :
    bitAt words index = true ↔
      ∃ word, words[index / 64]? = some word ∧ word.getLsbD (index % 64) = true := by
  rw [bitAt, Option.any_eq_true]

theorem bitAt_lowest {words : List (BitVec 64)} {place : Nat} {word : BitVec 64}
    (there : words[place]? = some word) (some : word ≠ 0#64) :
    bitAt words (place * 64 + word.ctz.toNat) = true := by
  have below : word.ctz.toNat < 64 := BitVec.ctz_lt_iff_ne_zero.2 some
  have same : (place * 64 + word.ctz.toNat) / 64 = place := by omega
  have position : (place * 64 + word.ctz.toNat) % 64 = word.ctz.toNat := by omega
  apply bitAt_eq_true_iff.2
  rw [same, position]
  exact ⟨word, there, BitVec.getLsbD_true_ctz_of_ne_zero some⟩

theorem isEmpty_iff (set : WordSet width) : set.isEmpty = true ↔ ∀ index, ¬set.contains index = true := by
  rw [isEmpty, List.all_eq_true, contains_eq_bitAt]
  constructor
  · intro zero index member
    obtain ⟨word, there, bit⟩ := bitAt_eq_true_iff.1 member
    rw [eq_of_beq (zero word (List.mem_of_getElem? there)), BitVec.getLsbD_zero] at bit
    cases bit
  · intro none word member
    obtain ⟨place, there⟩ := List.mem_iff_getElem?.1 member
    rw [beq_iff_eq]
    apply Classical.byContradiction
    intro some
    exact none _ (bitAt_lowest there some)

theorem first?_eq_none_iff (set : WordSet width) :
    set.first? = none ↔ ∀ index, ¬set.contains index = true := by
  rw [← isEmpty_iff, first?, Option.map_eq_none_iff, List.find?_eq_none, isEmpty, List.all_eq_true]
  constructor
  · intro zero word member
    obtain ⟨place, there⟩ := List.mem_iff_getElem?.1 member
    simpa using zero (word, place) (List.mk_mem_zipIdx_iff_getElem?.2 there)
  · rintro zero ⟨word, place⟩ member
    simpa using zero word (List.mem_of_getElem? (List.mk_mem_zipIdx_iff_getElem?.1 member))

theorem first?_eq_some {set : WordSet width} {index : Nat} (found : set.first? = some index) :
    set.contains index = true ∧ ∀ other < index, ¬set.contains other = true := by
  obtain ⟨⟨word, place⟩, hit, rfl⟩ := Option.map_eq_some_iff.1 found
  obtain ⟨some, position, inside, there, zeros⟩ := List.find?_eq_some_iff_getElem.1 hit
  rw [List.getElem_zipIdx, Nat.zero_add, Prod.mk.injEq] at there
  obtain ⟨there, rfl⟩ := there
  rw [bne_iff_ne] at some
  rw [List.length_zipIdx] at inside
  rw [contains_eq_bitAt]
  refine ⟨bitAt_lowest (List.getElem?_eq_some_iff.2 ⟨inside, there⟩) some, ?_⟩
  intro other less member
  obtain ⟨owner, holds, bit⟩ := bitAt_eq_true_iff.1 member
  obtain ⟨within, same⟩ := List.getElem?_eq_some_iff.1 holds
  dsimp only at less
  have below : word.ctz.toNat < 64 := BitVec.ctz_lt_iff_ne_zero.2 some
  -- The bit lies in a word before, which is zero, or lower in this one.
  rcases Nat.lt_or_ge (other / 64) position with before | after
  · have zero := zeros (other / 64) before
    simp only [List.getElem_zipIdx, same, Bool.not_eq_true', bne_eq_false_iff_eq] at zero
    rw [zero, BitVec.getLsbD_zero] at bit
    cases bit
  · obtain rfl : other / 64 = position := by omega
    obtain rfl : owner = word := same.symm.trans there
    have lower : other % 64 < owner.ctz.toNat := by omega
    rw [BitVec.getLsbD_false_of_lt_ctz lower] at bit
    cases bit

theorem contains_lt {set : WordSet width} {index : Nat} (member : set.contains index = true) :
    index < 64 * width := by
  rw [contains_eq_bitAt] at member
  obtain ⟨word, there, _⟩ := bitAt_eq_true_iff.1 member
  have inside := (List.getElem?_eq_some_iff.1 there).1
  rw [Vector.length_toList] at inside
  omega

theorem count_eq (set : WordSet width) : set.count = (List.range (64 * width)).countP set.contains := by
  have whole := countP_bitAt set.words.toList
  rw [Vector.length_toList] at whole
  rw [count, contains_eq_bitAt, whole]

end WordSet

structure Presents (members : Finset Nat) (contains : Nat → Bool) (first? : Option Nat) (count : Nat) (isEmpty : Bool) :
    Prop where
  contains : ∀ index, contains index = true ↔ index ∈ members
  least : ∀ index, first? = some index ↔ IsLeast (members : Set Nat) index
  none : first? = none ↔ members = ∅
  count : count = members.card
  isEmpty : isEmpty = true ↔ members = ∅

theorem card_eq_countP {capacity : Nat} {members : Finset Nat} {contains : Nat → Bool}
    (known : ∀ index, contains index = true ↔ index ∈ members) (bounded : ∀ index ∈ members, index < capacity) :
    (List.range capacity).countP contains = members.card := by
  have same : ((List.range capacity).filter contains).toFinset = members := by
    ext index
    rw [List.mem_toFinset, List.mem_filter, List.mem_range, known]
    exact and_iff_right_of_imp (bounded index)
  rw [List.countP_eq_length_filter, ← same, List.toFinset_card_of_nodup (List.nodup_range.filter _)]

theorem presents_of {capacity : Nat} {members : Finset Nat} {contains : Nat → Bool} {first? : Option Nat}
    {isEmpty : Bool} (known : ∀ index, contains index = true ↔ index ∈ members)
    (bounded : ∀ index ∈ members, index < capacity)
    (least : ∀ index, first? = some index → contains index = true ∧ ∀ other < index, ¬contains other = true)
    (none : first? = none ↔ ∀ index, ¬contains index = true)
    (isEmpty_iff : isEmpty = true ↔ ∀ index, ¬contains index = true) :
    Presents members contains first? ((List.range capacity).countP contains) isEmpty := by
  have empty_iff : (∀ index, ¬contains index = true) ↔ members = ∅ := by
    simp only [known, Finset.eq_empty_iff_forall_notMem]
  have first_least (index : Nat) (found : first? = some index) : IsLeast (members : Set Nat) index := by
    obtain ⟨member, before⟩ := least index found
    refine ⟨Finset.mem_coe.2 ((known index).1 member), ?_⟩
    intro other also
    apply Nat.le_of_not_lt
    intro less
    exact before other less ((known other).2 (Finset.mem_coe.1 also))
  refine ⟨known, fun index => ⟨first_least index, ?_⟩, none.trans empty_iff, card_eq_countP known bounded,
    isEmpty_iff.trans empty_iff⟩
  intro isLeast
  cases found : first? with
  | none =>
    rw [none.trans empty_iff] at found
    exact absurd isLeast.1 (found ▸ Finset.notMem_empty index)
  | some other => rw [(first_least other found).unique isLeast]

namespace WordSet

variable {width : Nat}

theorem presents {set : WordSet width} {members : Finset Nat}
    (known : ∀ index, set.contains index = true ↔ index ∈ members) :
    Presents members set.contains set.first? set.count set.isEmpty := by
  rw [count_eq]
  exact presents_of known (fun index member => contains_lt ((known index).2 member)) (fun _ => first?_eq_some)
    set.first?_eq_none_iff set.isEmpty_iff

end WordSet

namespace IndexSet

variable {capacity : Nat}

def step (set : IndexSet capacity) : IndexCall → IndexSet capacity
  | .put index present => set.put index present
  | .insertBelow count => set.insertBelow count
  | .clear => empty

def run (set : IndexSet capacity) (calls : List IndexCall) : IndexSet capacity :=
  calls.foldl step set

theorem isEmpty_iff (set : IndexSet capacity) : set.isEmpty = true ↔ ∀ index, ¬set.contains index = true := by
  rw [isEmpty, decide_eq_true_eq]
  constructor
  · intro zero index member
    rw [contains_eq_getLsbD, zero] at member
    exact Bool.false_ne_true (BitVec.getLsbD_zero.symm.trans member)
  · intro none
    apply BitVec.eq_of_getLsbD_eq
    intro index _
    have absent : set.contains index = false := Bool.eq_false_iff.2 (none index)
    rw [← contains_eq_getLsbD, absent]
    exact BitVec.getLsbD_zero.symm

theorem presents {set : IndexSet capacity} {members : Finset Nat}
    (known : ∀ index, set.contains index = true ↔ index ∈ members) :
    Presents members set.contains set.first? set.count set.isEmpty :=
  presents_of known (fun index member => set.contains_lt index ((known index).2 member)) (fun _ => first?_eq_some)
    set.first?_eq_none_iff set.isEmpty_iff

theorem contains_put (set : IndexSet capacity) (index other : Nat) (present : Bool) :
    (set.put index present).contains other =
      if other = index ∧ index < capacity then present else set.contains other := by
  cases present with
  | true =>
    rw [put, if_pos rfl, contains_insert]
    by_cases here : other = index ∧ index < capacity
    · rw [if_pos here, decide_eq_true here.1, decide_eq_true here.2, Bool.and_self, Bool.or_true]
    · rw [if_neg here, ← Bool.decide_and, decide_eq_false fun both => here both.symm, Bool.or_false]
  | false =>
    rw [put, if_neg Bool.false_ne_true, contains_erase]
    by_cases here : other = index ∧ index < capacity
    · rw [if_pos here, decide_eq_true here.1, Bool.not_true, Bool.and_false]
    · rw [if_neg here]
      by_cases same : other = index
      · have outside : set.contains other = false := Bool.eq_false_iff.2 fun member =>
          here ⟨same, same ▸ set.contains_lt other member⟩
        rw [outside, Bool.false_and]
      · rw [decide_eq_false same, Bool.not_false, Bool.and_true]

theorem contains_step_iff {set : IndexSet capacity} {members : Finset Nat}
    (known : ∀ index, set.contains index = true ↔ index < capacity ∧ index ∈ members) (call : IndexCall) (index : Nat) :
    (set.step call).contains index = true ↔ index < capacity ∧ index ∈ call.change members := by
  cases call with
  | put other present =>
    cases present with
    | true =>
      rw [IndexCall.change, Finset.mem_insert, step, put, if_pos rfl, contains_insert_iff, known]
      constructor
      · rintro (⟨inside, member⟩ | ⟨inside, rfl⟩)
        · exact ⟨inside, Or.inr member⟩
        · exact ⟨inside, Or.inl rfl⟩
      · rintro ⟨inside, rfl | member⟩
        · exact Or.inr ⟨inside, rfl⟩
        · exact Or.inl ⟨inside, member⟩
    | false =>
      rw [IndexCall.change, Finset.mem_erase, step, put, if_neg Bool.false_ne_true, contains_erase_iff, known,
        and_assoc, and_comm (a := index ≠ other)]
  | insertBelow count =>
    rw [IndexCall.change, Finset.mem_union, Finset.mem_range, step, contains_insertBelow_iff, known, ← and_or_left]
  | clear =>
    rw [step, contains_empty, IndexCall.change]
    simp

theorem contains_run_iff (calls : List IndexCall) (index : Nat) :
    ((empty : IndexSet capacity).run calls).contains index = true ↔
      index < capacity ∧ index ∈ IndexCall.described calls := by
  induction calls using List.reverseRecOn generalizing index with
  | nil =>
    rw [run, List.foldl_nil, contains_empty, IndexCall.described, List.foldl_nil]
    simp
  | append_singleton earlier last ih =>
    rw [run, List.foldl_concat, IndexCall.described, List.foldl_concat]
    exact contains_step_iff ih last index

end IndexSet

namespace WordSet

variable {width : Nat}

/-- Words that have the same members as a set with one bit for each index. -/
def Agrees (set : WordSet width) (plain : IndexSet (64 * width)) : Prop :=
  ∀ index, set.contains index = plain.contains index

variable {set : WordSet width} {plain : IndexSet (64 * width)}

theorem agrees_empty : (empty : WordSet width).Agrees .empty := by
  intro index
  rw [contains_empty, IndexSet.contains_empty]

theorem Agrees.put (agrees : set.Agrees plain) (index : Nat) (present : Bool) :
    (set.put index present).Agrees (plain.put index present) := by
  intro other
  rw [contains_put, IndexSet.contains_put, agrees]

theorem Agrees.insertAll (agrees : set.Agrees plain) (indices : List Nat) :
    (indices.foldl (fun set index => set.put index true) set).Agrees (indices.foldl IndexSet.insert plain) := by
  induction indices generalizing set plain with
  | nil => exact agrees
  | cons first rest ih => exact ih (agrees.put first true)

theorem Agrees.step (agrees : set.Agrees plain) (call : IndexCall) : (set.step call).Agrees (plain.step call) := by
  cases call with
  | put index present => exact agrees.put index present
  | insertBelow count => exact agrees.insertAll _
  | clear => exact agrees_empty

theorem Agrees.run (agrees : set.Agrees plain) (calls : List IndexCall) : (set.run calls).Agrees (plain.run calls) := by
  induction calls generalizing set plain with
  | nil => exact agrees
  | cons call rest ih => exact ih (agrees.step call)

/-- Whatever calls follow each other, a set in any number of words is the set that the calls describe,
without the indices for which it has no bit, and so is the set with one bit for each index. -/
theorem run_described (width : Nat) (calls : List IndexCall) :
    let members := {index ∈ IndexCall.described calls | index < 64 * width}
    let set := (empty : WordSet width).run calls
    let plain := (IndexSet.empty : IndexSet (64 * width)).run calls
    Presents members set.contains set.first? set.count set.isEmpty ∧
      Presents members plain.contains plain.first? plain.count plain.isEmpty := by
  intro members set plain
  have known (index : Nat) : plain.contains index = true ↔ index ∈ members := by
    rw [Finset.mem_filter, and_comm]
    exact IndexSet.contains_run_iff calls index
  refine ⟨presents fun index => ?_, IndexSet.presents known⟩
  rw [agrees_empty.run calls index]
  exact known index

example : ((empty : WordSet 2).run [.put 100 true, .insertBelow 66, .put 128 true, .put 0 false]).first? = some 1 := by
  decide +kernel

end WordSet

end TileRoom
