/-! Cutting a list at separators. A cut at one separator loses that separator only; cutting at all
of them gives one more part than there are separators. -/

namespace TileRoom.Cut

variable {α : Type} [DecidableEq α]

def first? (separator : α) : List α → Option (List α × List α)
  | [] => none
  | item :: rest =>
      if item = separator then some ([], rest)
      else (first? separator rest).map fun (before, after) => (item :: before, after)

def last? (separator : α) (items : List α) : Option (List α × List α) :=
  (first? separator items.reverse).map fun (after, before) => (before.reverse, after.reverse)

def all (separator : α) : List α → List (List α)
  | [] => [[]]
  | item :: rest =>
      if item = separator then [] :: all separator rest
      else
        match all separator rest with
        | part :: parts => (item :: part) :: parts
        | [] => [[item]]

/-- What stands before and after the first place where the whole separator stands. -/
def around? (separator : List α) : List α → Option (List α × List α)
  | [] => if separator = [] then some ([], []) else none
  | item :: rest =>
      if separator.isPrefixOf (item :: rest) then
        some ([], (item :: rest).drop separator.length)
      else (around? separator rest).map fun (before, after) => (item :: before, after)

theorem first?_eq_some {separator : α} {items before after : List α}
    (found : first? separator items = some (before, after)) :
    items = before ++ separator :: after := by
  induction items generalizing before with
  | nil => simp [first?] at found
  | cons item rest ih =>
    simp only [first?] at found
    split at found
    · rename_i same
      obtain ⟨rfl, rfl⟩ := Prod.mk.inj (Option.some.inj found)
      simp [same]
    · obtain ⟨⟨inner, last⟩, hit, made⟩ := Option.map_eq_some_iff.1 found
      obtain ⟨rfl, rfl⟩ := Prod.mk.inj made
      simp [ih hit]

end TileRoom.Cut
