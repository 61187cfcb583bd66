/-! Tables: values under distinct keys, in the order the keys were entered. A key
entered again keeps its place and gets the new value. -/

namespace TileRoom

structure Table (key value : Type) where
  entries : List (key × value)
  distinct : (entries.map (·.1)).Nodup

namespace Table

variable {key value : Type} [DecidableEq key]

def empty : Table key value := ⟨[], List.nodup_nil⟩

def keys (table : Table key value) : List key :=
  table.entries.map (·.1)

def values (table : Table key value) : List value :=
  table.entries.map (·.2)

def size (table : Table key value) : Nat :=
  table.entries.length

def isEmpty (table : Table key value) : Bool :=
  table.entries.isEmpty

def find? (table : Table key value) (wanted : key) : Option value :=
  (table.entries.find? (·.1 = wanted)).map (·.2)

def contains (table : Table key value) (wanted : key) : Bool :=
  (table.find? wanted).isSome

def change (wanted : key) (f : value → value) (entry : key × value) : key × value :=
  if entry.1 = wanted then (entry.1, f entry.2) else entry

theorem change_key (wanted : key) (f : value → value) (entry : key × value) :
    (change wanted f entry).1 = entry.1 := by
  unfold change
  split <;> rfl

def update (table : Table key value) (wanted : key) (f : value → value) : Table key value :=
  ⟨table.entries.map (change wanted f), by
    have same : (table.entries.map (change wanted f)).map (·.1) = table.entries.map (·.1) := by
      simp [List.map_map, Function.comp_def, change_key]
    exact same ▸ table.distinct⟩

def keep (table : Table key value) (test : key → value → Bool) : Table key value :=
  ⟨table.entries.filter fun entry => test entry.1 entry.2,
    (List.filter_sublist.map _).nodup table.distinct⟩

def erase (table : Table key value) (unwanted : key) : Table key value :=
  table.keep fun found _ => found ≠ unwanted

def put (table : Table key value) (wanted : key) (entered : value) : Table key value :=
  if known : wanted ∈ table.keys then table.update wanted fun _ => entered
  else
    ⟨table.entries ++ [(wanted, entered)], by
      simp only [List.map_append, List.map_cons, List.map_nil]
      refine List.nodup_append.2 ⟨table.distinct, by simp, ?_⟩
      intro first first_known second second_new same
      simp only [List.mem_singleton] at second_new
      exact known (second_new ▸ same ▸ first_known)⟩

theorem keys_update (table : Table key value) (wanted : key) (f : value → value) :
    (table.update wanted f).keys = table.keys := by
  simp [keys, update, List.map_map, Function.comp_def, change_key]

theorem find?_update (table : Table key value) (changed wanted : key) (f : value → value) :
    (table.update changed f).find? wanted =
      if changed = wanted then (table.find? wanted).map f else table.find? wanted := by
  obtain ⟨entries, _⟩ := table
  simp only [find?, update]
  induction entries with
  | nil => simp
  | cons entry rest ih =>
    by_cases here : entry.1 = wanted
    · by_cases same : changed = wanted
      · simp [change, here, same]
      · simp [change, here, Ne.symm same, same]
    · simpa [List.find?_cons, change_key, here] using ih (by simp_all)

theorem find?_eq_none_iff (table : Table key value) (wanted : key) :
    table.find? wanted = none ↔ wanted ∉ table.keys := by
  simp only [find?, keys, Option.map_eq_none_iff, List.find?_eq_none, decide_eq_true_eq,
    List.mem_map, not_exists, not_and]

theorem find?_eq_some_iff (table : Table key value)
    (wanted : key) (found : value) :
    table.find? wanted = some found ↔ (wanted, found) ∈ table.entries := by
  obtain ⟨entries, distinct⟩ := table
  simp only [find?]
  induction entries with
  | nil => simp
  | cons entry rest ih =>
    obtain ⟨fresh, distinct⟩ := List.nodup_cons.1 distinct
    have later := ih distinct
    by_cases here : entry.1 = wanted
    · have absent : (wanted, found) ∉ rest := by
        intro member
        exact fresh (List.mem_map.2 ⟨(wanted, found), member, here.symm⟩)
      simp only [List.find?_cons, here, decide_true]
      rw [List.mem_cons, or_iff_left absent, Option.map_some, Option.some.injEq, Prod.ext_iff]
      exact ⟨fun same => ⟨here.symm, same.symm⟩, fun both => both.2.symm⟩
    · have different : (wanted, found) ≠ entry := by
        intro same
        exact here (congrArg Prod.fst same).symm
      simp only [List.find?_cons, here, decide_false]
      rw [later, List.mem_cons, or_iff_right different]

theorem find?_keep (table : Table key value) (wanted : key) (test : key → value → Bool) :
    (table.keep test).find? wanted = (table.find? wanted).filter (test wanted) := by
  obtain ⟨entries, distinct⟩ := table
  simp only [find?, keep, List.find?_filter]
  induction entries with
  | nil => rfl
  | cons entry rest ih =>
    obtain ⟨fresh, distinct⟩ := List.nodup_cons.1 distinct
    have step := ih distinct
    by_cases here : entry.1 = wanted
    · subst here
      have absent : rest.find? (·.1 = entry.1) = none := by
        simp only [List.find?_eq_none, decide_eq_true_eq]
        exact fun other member same => fresh (List.mem_map.2 ⟨other, member, same⟩)
      rw [absent] at step
      by_cases kept : test entry.1 entry.2 = true
      · simp [Option.filter, kept]
      · simpa [Option.filter, kept] using step
    · simpa [here] using step

theorem find?_put (table : Table key value) (entered wanted : key) (new : value) :
    (table.put entered new).find? wanted =
      if entered = wanted then some new else table.find? wanted := by
  unfold put
  split
  · rename_i known
    rw [find?_update]
    by_cases same : entered = wanted
    · subst same
      obtain ⟨old, found⟩ := Option.ne_none_iff_exists'.1
        (fun absent => (find?_eq_none_iff table entered).1 absent known)
      simp [found]
    · simp [same]
  · rename_i unknown
    have absent := (find?_eq_none_iff table entered).2 unknown
    simp only [find?, Option.map_eq_none_iff] at absent
    by_cases same : entered = wanted
    · subst same
      simp [find?, List.find?_append, absent]
    · simp [find?, List.find?_append, same]

end Table

end TileRoom
