import TileRoom.Text.Blank

/-! Trimming leaves a text alone that has no blank at either end. -/

namespace TileRoom

/-- What holds of all characters of a text is looked up along the text. -/
instance (priority := high) decidableForallMem (text : List Char) (p : Char → Prop) [DecidablePred p] :
    Decidable (∀ c ∈ text, p c) :=
  List.decidableBAll p text

namespace Blank

theorem trimWhere_kept {α : Type} (unwanted : α → Bool) (items : List α)
    (kept : ∀ item ∈ items, unwanted item = false) : trimWhere unwanted items = items := by
  have unchanged (items : List α) (kept : ∀ item ∈ items, unwanted item = false) :
      items.dropWhile unwanted = items := by
    cases items with
    | nil => rfl
    | cons item rest =>
      rw [List.dropWhile_cons_of_neg]
      rw [kept item (List.mem_cons_self ..)]
      decide
  rw [trimWhere, unchanged items kept,
    unchanged _ fun item member => kept item (List.mem_reverse.1 member), List.reverse_reverse]

theorem trim_visible (text : List Char) (visible : ∀ c ∈ text, isBlank c = false) :
    trim text = text :=
  trimWhere_kept isBlank text visible

theorem trimWhere_cons {α : Type} (unwanted : α → Bool) (first : α) (items : List α)
    (blank : unwanted first = true) : trimWhere unwanted (first :: items) = trimWhere unwanted items := by
  rw [trimWhere, List.dropWhile_cons_of_pos blank, trimWhere]

theorem trim_blank_cons (first : Char) (text : List Char) (blank : isBlank first = true) :
    trim (first :: text) = trim text :=
  trimWhere_cons isBlank first text blank

end Blank

end TileRoom
