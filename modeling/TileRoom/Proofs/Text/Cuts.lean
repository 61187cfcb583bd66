import TileRoom.Text.Cut

/-! Lists cut at separators. The parts that stand between separators are found again, and put
together they give the whole back. -/

namespace TileRoom.Cut

variable {α : Type} [DecidableEq α]

section

variable {separator : α}

theorem all_plain (items : List α) (plain : separator ∉ items) : all separator items = [items] := by
  induction items with
  | nil => rfl
  | cons item rest ih =>
    rw [List.mem_cons, not_or] at plain
    rw [all, if_neg (Ne.symm plain.1), ih plain.2]

theorem all_append (items rest : List α) (plain : separator ∉ items) :
    all separator (items ++ separator :: rest) = items :: all separator rest := by
  induction items with
  | nil => rw [List.nil_append, all, if_pos rfl]
  | cons item others ih =>
    rw [List.mem_cons, not_or] at plain
    rw [List.cons_append, all, if_neg (Ne.symm plain.1), ih plain.2]

theorem all_intercalate (separator : α) (first : List α) (parts : List (List α))
    (plain : ∀ part ∈ first :: parts, separator ∉ part) :
    all separator (List.intercalate [separator] (first :: parts)) = first :: parts := by
  induction parts generalizing first with
  | nil =>
    rw [List.intercalate_singleton]
    exact all_plain first (plain first (List.mem_cons_self ..))
  | cons second rest ih =>
    obtain ⟨here, later⟩ := List.forall_mem_cons.1 plain
    rw [List.intercalate_cons_cons, List.append_assoc, List.singleton_append, all_append first _ here,
      ih second later]

theorem first?_plain (items : List α) (plain : separator ∉ items) : first? separator items = none := by
  induction items with
  | nil => rfl
  | cons item rest ih =>
    rw [List.mem_cons, not_or] at plain
    rw [first?, if_neg (Ne.symm plain.1), ih plain.2]
    rfl

theorem first?_append (items rest : List α) (plain : separator ∉ items) :
    first? separator (items ++ separator :: rest) = some (items, rest) := by
  induction items with
  | nil => rw [List.nil_append, first?, if_pos rfl]
  | cons item others ih =>
    rw [List.mem_cons, not_or] at plain
    rw [List.cons_append, first?, if_neg (Ne.symm plain.1), ih plain.2]
    rfl

theorem first?_eq_none_iff {items : List α} : first? separator items = none ↔ separator ∉ items := by
  constructor
  · intro missing member
    obtain ⟨before, after, rfl, plain⟩ := List.eq_append_cons_of_mem member
    rw [first?_append before after plain] at missing
    cases missing
  · exact first?_plain items

theorem first?_eq_some_iff {items before after : List α} :
    first? separator items = some (before, after) ↔
      items = before ++ separator :: after ∧ separator ∉ before := by
  constructor
  · intro found
    have whole := first?_eq_some found
    obtain ⟨early, late, form, plain⟩ := List.eq_append_cons_of_mem
      (show separator ∈ items by rw [whole]; simp)
    rw [form, first?_append early late plain] at found
    obtain ⟨rfl, rfl⟩ := Prod.mk.inj (Option.some.inj found)
    exact ⟨form, plain⟩
  · rintro ⟨rfl, plain⟩
    exact first?_append before after plain

theorem last?_eq_none_iff {items : List α} : last? separator items = none ↔ separator ∉ items := by
  rw [last?, Option.map_eq_none_iff, first?_eq_none_iff, List.mem_reverse]

theorem last?_eq_some_iff {items before after : List α} :
    last? separator items = some (before, after) ↔
      items = before ++ separator :: after ∧ separator ∉ after := by
  constructor
  · intro found
    obtain ⟨⟨late, early⟩, first, made⟩ := Option.map_eq_some_iff.1 found
    obtain ⟨rfl, rfl⟩ := Prod.mk.inj made
    obtain ⟨form, plain⟩ := first?_eq_some_iff.1 first
    refine ⟨?_, by rwa [List.mem_reverse]⟩
    rw [← List.reverse_reverse items, form, List.reverse_append, List.reverse_cons, List.append_assoc]
    rfl
  · rintro ⟨rfl, plain⟩
    have form : (before ++ separator :: after).reverse = after.reverse ++ separator :: before.reverse := by
      rw [List.reverse_append, List.reverse_cons, List.append_assoc]
      rfl
    rw [last?, form, first?_append _ _ (by rwa [List.mem_reverse])]
    simp only [Option.map_some, List.reverse_reverse]

theorem last_unique {before after front behind : List α} (same : before ++ separator :: after = front ++ separator :: behind)
    (plain : separator ∉ after) (clear : separator ∉ behind) : before = front ∧ after = behind := by
  have one : last? separator (before ++ separator :: after) = some (before, after) := last?_eq_some_iff.2 ⟨rfl, plain⟩
  have two : last? separator (before ++ separator :: after) = some (front, behind) := last?_eq_some_iff.2 ⟨same, clear⟩
  exact Prod.mk.inj (Option.some.inj (one.symm.trans two))

theorem all_cons_ne {item : α} (other : item ≠ separator) (rest : List α) :
    ∃ part parts, all separator rest = part :: parts ∧ all separator (item :: rest) = (item :: part) :: parts := by
  have nonempty : all separator rest ≠ [] := by
    cases rest with
    | nil => exact List.cons_ne_nil _ _
    | cons first others =>
      rw [all]
      split
      · exact List.cons_ne_nil _ _
      · split <;> exact List.cons_ne_nil _ _
  obtain ⟨part, parts, form⟩ := List.exists_cons_of_ne_nil nonempty
  refine ⟨part, parts, form, ?_⟩
  rw [all, if_neg other, form]

theorem all_spec (separator : α) (items : List α) :
    (∀ part ∈ all separator items, separator ∉ part) ∧
      ∃ part parts, all separator items = part :: parts ∧ List.intercalate [separator] (part :: parts) = items := by
  induction items with
  | nil => exact ⟨by simp [all], [], [], rfl, List.intercalate_singleton ..⟩
  | cons item rest ih =>
    obtain ⟨plain, part, parts, form, whole⟩ := ih
    by_cases same : item = separator
    · subst same
      have cut : all item (item :: rest) = [] :: part :: parts := by rw [all, if_pos rfl, form]
      refine ⟨?_, [], part :: parts, cut, ?_⟩
      · rw [cut, ← form]
        exact List.forall_mem_cons.2 ⟨List.not_mem_nil, plain⟩
      · rw [List.intercalate_cons_cons, whole]
        rfl
    · obtain ⟨first, others, same', cut⟩ := all_cons_ne same rest
      obtain ⟨rfl, rfl⟩ := List.cons.inj (form.symm.trans same')
      rw [form] at plain
      obtain ⟨here, later⟩ := List.forall_mem_cons.1 plain
      refine ⟨?_, item :: part, parts, cut, ?_⟩
      · rw [cut]
        exact List.forall_mem_cons.2 ⟨by simp [here, Ne.symm same], later⟩
      · rw [← whole]
        cases parts with
        | nil => simp
        | cons second more => rw [List.intercalate_cons_cons, List.intercalate_cons_cons, List.cons_append, List.cons_append]

omit [DecidableEq α] in
theorem mem_intercalate {parts : List (List α)} {item : α} (member : item ∈ List.intercalate [separator] parts) :
    item = separator ∨ ∃ part ∈ parts, item ∈ part := by
  induction parts with
  | nil => cases member
  | cons part rest ih =>
    cases rest with
    | nil =>
      rw [List.intercalate_singleton] at member
      exact .inr ⟨part, List.mem_cons_self, member⟩
    | cons second others =>
      rw [List.intercalate_cons_cons, List.append_assoc, List.mem_append] at member
      rcases member with here | later
      · exact .inr ⟨part, List.mem_cons_self, here⟩
      · rcases List.mem_cons.1 later with same | inside
        · exact .inl same
        · exact (ih inside).imp_right fun ⟨part, known, there⟩ => ⟨part, List.mem_cons_of_mem _ known, there⟩

theorem length_le_count_intercalate (separator : α) (parts : List (List α)) :
    parts.length ≤ (List.intercalate [separator] parts).count separator + 1 := by
  induction parts with
  | nil => exact Nat.zero_le _
  | cons part rest ih =>
    cases rest with
    | nil => exact Nat.le_add_left 1 _
    | cons second others =>
      rw [List.intercalate_cons_cons, List.count_append, List.count_append, List.count_singleton_self]
      simp only [List.length_cons] at ih ⊢
      omega

theorem takeWhile_ne_append (items rest : List α) (plain : separator ∉ items) :
    (items ++ separator :: rest).takeWhile (· ≠ separator) = items := by
  have each : ∀ item ∈ items, decide (item ≠ separator) = true :=
    fun item member => decide_eq_true fun same => plain (same ▸ member)
  rw [List.takeWhile_append_of_pos each, List.takeWhile_cons_of_neg (by simp), List.append_nil]

theorem dropWhile_ne_append (items rest : List α) (plain : separator ∉ items) :
    (items ++ separator :: rest).dropWhile (· ≠ separator) = separator :: rest := by
  have each : ∀ item ∈ items, decide (item ≠ separator) = true :=
    fun item member => decide_eq_true fun same => plain (same ▸ member)
  rw [List.dropWhile_append_of_pos each, List.dropWhile_cons_of_neg (by simp)]

end

section

variable {separator : List α}

theorem around?_eq_some {items before after : List α}
    (found : around? separator items = some (before, after)) :
    items = before ++ separator ++ after := by
  induction items generalizing before with
  | nil =>
    rw [around?] at found
    split at found
    · rename_i none
      obtain ⟨rfl, rfl⟩ := Prod.mk.inj (Option.some.inj found)
      rw [none]
      rfl
    · cases found
  | cons item rest ih =>
    rw [around?] at found
    split at found
    · rename_i here
      obtain ⟨more, whole⟩ := List.isPrefixOf_iff_prefix.1 here
      obtain ⟨rfl, rfl⟩ := Prod.mk.inj (Option.some.inj found)
      rw [← whole, List.drop_left, List.nil_append]
    · obtain ⟨⟨inner, last⟩, hit, made⟩ := Option.map_eq_some_iff.1 found
      obtain ⟨rfl, rfl⟩ := Prod.mk.inj made
      rw [ih hit]
      rfl

theorem around?_append {items before after : List α} (nonempty : separator ≠ [])
    (found : around? separator items = some (before, after)) (more : List α) :
    around? separator (items ++ more) = some (before, after ++ more) := by
  induction items generalizing before with
  | nil =>
    rw [around?, if_neg nonempty] at found
    cases found
  | cons item rest ih =>
    rw [around?] at found
    rw [List.cons_append, around?]
    by_cases here : separator.isPrefixOf (item :: rest) = true
    · rw [if_pos here] at found
      obtain ⟨rfl, rfl⟩ := Prod.mk.inj (Option.some.inj found)
      obtain ⟨last, whole⟩ := List.isPrefixOf_iff_prefix.1 here
      have still : separator.isPrefixOf (item :: (rest ++ more)) = true :=
        List.isPrefixOf_iff_prefix.2 ⟨last ++ more, by rw [← List.append_assoc, whole]; rfl⟩
      rw [if_pos still, ← List.cons_append, ← whole, List.append_assoc, List.drop_left,
        List.drop_left]
    · rw [if_neg here] at found
      obtain ⟨⟨inner, last⟩, hit, made⟩ := Option.map_eq_some_iff.1 found
      obtain ⟨rfl, rfl⟩ := Prod.mk.inj made
      have later : ¬separator.isPrefixOf (item :: (rest ++ more)) = true := by
        intro start
        have long := congrArg List.length (around?_eq_some hit)
        simp only [List.length_append] at long
        refine here (List.isPrefixOf_iff_prefix.2 ?_)
        refine List.prefix_of_prefix_length_le (List.isPrefixOf_iff_prefix.1 start)
          (List.prefix_append (item :: rest) more) ?_
        rw [List.length_cons]
        omega
      rw [if_neg later, ih hit]
      rfl

theorem not_infix_of_around? {items before after : List α} (nonempty : separator ≠ [])
    (found : around? separator items = some (before, after)) : ¬separator <:+: before := by
  have whole := around?_eq_some found
  induction items generalizing before with
  | nil =>
    rw [around?, if_neg nonempty] at found
    cases found
  | cons item rest ih =>
    rw [around?] at found
    split at found
    · obtain ⟨rfl, rfl⟩ := Prod.mk.inj (Option.some.inj found)
      rwa [List.infix_nil]
    · rename_i later
      obtain ⟨⟨inner, last⟩, hit, made⟩ := Option.map_eq_some_iff.1 found
      obtain ⟨rfl, rfl⟩ := Prod.mk.inj made
      rw [List.infix_cons_iff, not_or]
      refine ⟨fun start => later ?_, ih hit (around?_eq_some hit)⟩
      rw [List.isPrefixOf_iff_prefix, whole, List.append_assoc]
      exact start.trans (List.prefix_append _ _)

theorem not_infix_of_around?_none {items : List α} (missing : around? separator items = none) :
    ¬separator <:+: items := by
  induction items with
  | nil =>
    rw [around?] at missing
    split at missing
    · cases missing
    · rename_i nonempty
      rwa [List.infix_nil]
  | cons item rest ih =>
    rw [around?] at missing
    split at missing
    · cases missing
    · rename_i later
      rw [List.infix_cons_iff, not_or, ← List.isPrefixOf_iff_prefix]
      exact ⟨later, ih (Option.map_eq_none_iff.1 missing)⟩

end

section

variable {separator : α}

theorem around?_pair_cons {item : α} {rest : List α}
    (apart : ¬(item = separator ∧ rest.head? = some separator)) :
    around? [separator, separator] (item :: rest) =
      (around? [separator, separator] rest).map fun found => (item :: found.1, found.2) := by
  have later : ¬[separator, separator].isPrefixOf (item :: rest) = true := by
    intro start
    obtain ⟨more, form⟩ := List.isPrefixOf_iff_prefix.1 start
    obtain ⟨rfl, rfl⟩ := List.cons.inj form
    exact apart ⟨rfl, rfl⟩
  rw [around?, if_neg later]

theorem around?_pair_plain {part : List α} (plain : separator ∉ part) (rest : List α) :
    around? [separator, separator] (part ++ rest) =
      (around? [separator, separator] rest).map fun found => (part ++ found.1, found.2) := by
  induction part with
  | nil => simp
  | cons item others ih =>
    rw [List.mem_cons, not_or] at plain
    rw [List.cons_append, around?_pair_cons fun same => plain.1 same.1.symm, ih plain.2, Option.map_map]
    rfl

theorem around?_pair_intercalate {parts : List (List α)} (each : ∀ part ∈ parts, part ≠ [] ∧ separator ∉ part)
    (rest : List α) :
    around? [separator, separator] (List.intercalate [separator] parts ++ rest) =
      (around? [separator, separator] rest).map fun found =>
        (List.intercalate [separator] parts ++ found.1, found.2) := by
  induction parts with
  | nil => simp
  | cons part others ih =>
    obtain ⟨here, later⟩ := List.forall_mem_cons.1 each
    cases others with
    | nil =>
      rw [List.intercalate_singleton]
      exact around?_pair_plain here.2 rest
    | cons second more =>
      -- A part that is not empty keeps the separator before it apart from the next one.
      have apart : ¬(separator = separator ∧
          (List.intercalate [separator] (second :: more) ++ rest).head? = some separator) := by
        obtain ⟨nonempty, plain⟩ := later second List.mem_cons_self
        obtain ⟨first, tail, rfl⟩ := List.exists_cons_of_ne_nil nonempty
        have begins : ∃ last, List.intercalate [separator] ((first :: tail) :: more) ++ rest = first :: last := by
          cases more with
          | nil => exact ⟨_, by rw [List.intercalate_singleton, List.cons_append]⟩
          | cons third others => exact ⟨_, by rw [List.intercalate_cons_cons, List.cons_append, List.cons_append,
              List.cons_append]⟩
        obtain ⟨last, form⟩ := begins
        rw [form]
        rintro ⟨-, same⟩
        exact plain (Option.some.inj same ▸ List.mem_cons_self)
      rw [List.intercalate_cons_cons, List.append_assoc, List.append_assoc, around?_pair_plain here.2,
        List.singleton_append, around?_pair_cons apart, ih later, Option.map_map, Option.map_map]
      congr 1
      funext found
      simp

end

end TileRoom.Cut
