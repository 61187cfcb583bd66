import Mathlib.Data.List.TakeWhile
import TileRoom.Text.Blank

/-! What trimming leaves of a list: the part between unwanted items that has none of them at
either end. -/

namespace TileRoom.Blank

variable {α β : Type} {unwanted : α → Bool} {items : List α}

def Trimmed (unwanted : α → Bool) (items : List α) : Prop :=
  (∀ first ∈ items.head?, unwanted first = false) ∧ ∀ last ∈ items.getLast?, unwanted last = false

instance (unwanted : α → Bool) (items : List α) : Decidable (Trimmed unwanted items) :=
  inferInstanceAs (Decidable (_ ∧ _))

theorem dropWhile_kept (kept : ∀ first ∈ items.head?, unwanted first = false) : items.dropWhile unwanted = items := by
  cases items with
  | nil => rfl
  | cons first rest =>
    rw [List.dropWhile_cons_of_neg]
    rw [kept first rfl]
    decide

theorem head?_dropWhile (unwanted : α → Bool) (items : List α) :
    ∀ first ∈ (items.dropWhile unwanted).head?, unwanted first = false := by
  intro first found
  have wanted := List.head?_dropWhile_not unwanted items
  rwa [Option.mem_def.1 found] at wanted

theorem trimWhere_parts (unwanted : α → Bool) (items : List α) :
    ∃ left right, items = left ++ trimWhere unwanted items ++ right ∧ (∀ item ∈ left, unwanted item = true) ∧
      (∀ item ∈ right, unwanted item = true) ∧ Trimmed unwanted (trimWhere unwanted items) := by
  let begun := items.dropWhile unwanted
  have whole : items = items.takeWhile unwanted ++ begun := List.takeWhile_append_dropWhile.symm
  have ended : begun = trimWhere unwanted items ++ (begun.reverse.takeWhile unwanted).reverse := by
    rw [trimWhere, ← List.reverse_append, List.takeWhile_append_dropWhile, List.reverse_reverse]
  refine ⟨items.takeWhile unwanted, (begun.reverse.takeWhile unwanted).reverse, ?_, ?_, ?_, ?_, ?_⟩
  · rw [List.append_assoc, ← ended]
    exact whole
  · exact fun item member => List.mem_takeWhile_imp member
  · exact fun item member => List.mem_takeWhile_imp (List.mem_reverse.1 member)
  · intro first found
    apply head?_dropWhile unwanted items first
    obtain ⟨rest, same⟩ := List.head?_eq_some_iff.1 found
    change begun.head? = some first
    rw [ended, same]
    rfl
  · intro last found
    rw [trimWhere, List.getLast?_reverse] at found
    exact head?_dropWhile unwanted _ last found

theorem trimWhere_between {left inner right : List α} (before : ∀ item ∈ left, unwanted item = true)
    (after : ∀ item ∈ right, unwanted item = true) (trimmed : Trimmed unwanted inner) :
    trimWhere unwanted (left ++ inner ++ right) = inner := by
  rw [trimWhere, List.append_assoc, List.dropWhile_append_of_pos before]
  cases inner with
  | nil =>
    have nothing : right.dropWhile unwanted = [] := List.dropWhile_eq_nil_iff.2 after
    rw [List.nil_append, nothing]
    rfl
  | cons first rest =>
    have begins : ((first :: rest) ++ right).dropWhile unwanted = (first :: rest) ++ right :=
      dropWhile_kept trimmed.1
    have ends : (first :: rest).reverse.dropWhile unwanted = (first :: rest).reverse := by
      apply dropWhile_kept
      rw [List.head?_reverse]
      exact trimmed.2
    have last : ∀ item ∈ right.reverse, unwanted item = true :=
      fun item member => after item (List.mem_reverse.1 member)
    rw [begins, List.reverse_append, List.dropWhile_append_of_pos last, ends, List.reverse_reverse]

theorem trimWhere_eq_iff {more : α → Bool} (wider : ∀ item, unwanted item = true → more item = true)
    (items : List α) : trimWhere more items = trimWhere unwanted items ↔ Trimmed more (trimWhere unwanted items) := by
  constructor
  · intro same
    obtain ⟨_, _, _, _, _, trimmed⟩ := trimWhere_parts more items
    rwa [same] at trimmed
  · intro trimmed
    obtain ⟨left, right, whole, before, after, _⟩ := trimWhere_parts unwanted items
    have between := trimWhere_between (fun item member => wider item (before item member))
      (fun item member => wider item (after item member)) trimmed
    rwa [← whole] at between

/-- Items are trimmed like what they are written as, when all of an unwanted item is unwanted and
nothing of another. -/
theorem trimWhere_flatMap {write : α → List β} {useless : β → Bool} (nonempty : ∀ item, write item ≠ [])
    (same : ∀ item, ∀ part ∈ write item, useless part = unwanted item) (items : List α) :
    trimWhere useless (items.flatMap write) = (trimWhere unwanted items).flatMap write := by
  obtain ⟨left, right, whole, before, after, first, last⟩ := trimWhere_parts unwanted items
  have all (some : List α) (each : ∀ item ∈ some, unwanted item = true) :
      ∀ part ∈ some.flatMap write, useless part = true := by
    intro part member
    obtain ⟨item, inside, written⟩ := List.mem_flatMap.1 member
    rw [same item part written, each item inside]
  have trimmed : Trimmed useless ((trimWhere unwanted items).flatMap write) := by
    generalize trimWhere unwanted items = inner at first last
    constructor
    · intro part found
      cases inner with
      | nil => cases found
      | cons item rest =>
        obtain ⟨begins, others, written⟩ := List.exists_cons_of_ne_nil (nonempty item)
        rw [List.flatMap_cons, written] at found
        obtain rfl := Option.some.inj found
        rw [same item begins (written ▸ List.mem_cons_self), first item rfl]
    · intro part found
      rcases List.eq_nil_or_concat inner with rfl | ⟨front, item, rfl⟩
      · cases found
      · have ends := List.getLast?_eq_some_getLast (nonempty item)
        rw [List.concat_eq_append] at found last
        rw [List.flatMap_append, List.flatMap_singleton, List.getLast?_append, ends] at found
        obtain rfl := Option.some.inj found
        rw [same item _ (List.getLast_mem (nonempty item)), last item List.getLast?_concat]
  have parts := congrArg (List.flatMap write) whole
  rw [List.flatMap_append, List.flatMap_append] at parts
  rw [parts]
  exact trimWhere_between (all left before) (all right after) trimmed

end TileRoom.Blank
