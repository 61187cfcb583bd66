import TileRoom.Proofs.Learning
import TileRoom.Proofs.Recency

/-! The clock of a model. It counts the events that were applied and the turns that the player
took, and each tile keeps the time of the event that told of it last. So the tiles stand in the
order of their times. -/

namespace TileRoom

namespace TileArena

variable {arena : TileArena} {past : List Nat}

def place (arena : TileArena) (number : Nat) (tile : SeenTile) : TileArena :=
  ((arena.insert number).update number fun _ => tile).touch number

theorem Arranged.place (arranged : arena.Arranged past) (number : Nat) (tile : SeenTile) :
    ∃ touched, (arena.place number tile).Arranged (touched ++ [number]) ∧
      (touched ++ [number]).dedup = past.dedup.erase number ++ [number] := by
  have written := (arranged.insert number).update number fun _ => tile
  have touched := written.touch number
  by_cases known : number ∈ past
  · rw [if_pos known, if_pos known] at touched
    exact ⟨past, touched, dedup_concat past number⟩
  · have last : number ∈ past ++ [number] := List.mem_append_right past List.mem_cons_self
    have absent : number ∉ past.dedup := fun member => known (List.mem_dedup.1 member)
    rw [if_neg known, if_pos last] at touched
    refine ⟨past ++ [number], touched, ?_⟩
    rw [dedup_concat, dedup_concat, List.erase_of_not_mem absent, List.erase_append_right _ absent,
      List.erase_cons_head, List.append_nil]

theorem Arranged.toList_eq (arranged : arena.Arranged past) :
    arena.toList = past.dedup.filterMap fun number => (arena.get? number).map (number, ·) := by
  obtain ⟨order, threaded, all, numbers⟩ := arranged.threaded
  rw [threaded.toList all, ← numbers, List.filterMap_filterMap]
  apply List.filterMap_congr
  intro slot member
  obtain ⟨found, there⟩ : ∃ found, arena.slots[slot]? = some found :=
    ⟨_, List.getElem?_eq_getElem (threaded.inside slot member)⟩
  have named : arena.numberAt slot = some found.number := by rw [numberAt, there, Option.map_some]
  have held : arena.get? found.number = some found.tile := by
    rw [get?, arranged.filed slot _ named, Option.bind_some, there, Option.map_some]
  rw [there, named, Option.map_some, Option.bind_some, held, Option.map_some, content]

theorem get?_place (sound : arena.Sound) (number : Nat) (tile : SeenTile) (other : Nat) :
    (arena.place number tile).get? other = if other = number then some tile else arena.get? other :=
  (place_spec sound number tile).2 other

theorem Arranged.mem_toList_iff (arranged : arena.Arranged past) (number : Nat) (tile : SeenTile) :
    (number, tile) ∈ arena.toList ↔ arena.get? number = some tile := by
  rw [arranged.toList_eq, List.mem_filterMap]
  constructor
  · rintro ⟨other, -, found⟩
    obtain ⟨held, there, same⟩ := Option.map_eq_some_iff.1 found
    cases same
    exact there
  · intro held
    have known : number ∈ past := by
      obtain ⟨slot, found, -⟩ := Option.bind_eq_some_iff.1 held
      exact (arranged.mem_iff number).2 ⟨slot, found⟩
    exact ⟨number, List.mem_dedup.2 known, by rw [held]; rfl⟩

theorem Arranged.toList_place (arranged : arena.Arranged past) (number : Nat) (tile : SeenTile) :
    (arena.place number tile).toList = arena.toList.filter (·.1 ≠ number) ++ [(number, tile)] := by
  obtain ⟨touched, placed, order⟩ := arranged.place number tile
  have others : (past.dedup.erase number).filterMap (fun other =>
      ((arena.place number tile).get? other).map (other, ·)) = arena.toList.filter (·.1 ≠ number) := by
    rw [arranged.toList_eq, (List.nodup_dedup past).erase_eq_filter, List.filterMap_filter, List.filter_filterMap]
    apply List.filterMap_congr
    intro other _
    rw [get?_place arranged.sound]
    by_cases same : other = number
    · cases held : arena.get? other <;> simp [same, Option.filter]
    · cases held : arena.get? other <;> simp [same, Option.filter]
  rw [placed.toList_eq, order, List.filterMap_append, others, List.filterMap_cons,
    get?_place arranged.sound, if_pos rfl]
  rfl

end TileArena

/-- What lets the clock of a model go on. -/
inductive Moment where
  | applied (event : Event)
  | turn
deriving DecidableEq

def Moment.TellsOf (num : Nat) : Moment → Prop
  | .applied event => event.tile? = some num
  | .turn => False

variable {past : List Moment} {num : Nat} {tile : SeenTile}

namespace Model

def live (model : Model) : Moment → Model
  | .applied event => model.apply event
  | .turn => model.tick

def ofPast (past : List Moment) : Model :=
  past.foldl live {}

theorem ofPast_concat (past : List Moment) (moment : Moment) :
    ofPast (past ++ [moment]) = (ofPast past).live moment :=
  List.foldl_concat ..

theorem setShouting_board (model : Model) (num : Nat) (value : Bool) :
    (model.setShouting num value).tiles = model.tiles ∧ (model.setShouting num value).clock = model.clock := by
  unfold setShouting
  split
  · exact ⟨rfl, rfl⟩
  · dsimp only
    split <;> exact ⟨rfl, rfl⟩

theorem clock_live (model : Model) (moment : Moment) : (model.live moment).clock = model.clock + 1 := by
  cases moment with
  | turn => rfl
  | applied event =>
    cases event with
    | shouting num value => exact (model.tick.setShouting_board num value).2
    | tile num x y letter lastPlayer isNew =>
      simp only [live, apply, change, setTile]
      split <;> rfl
    | header | name | status | message | failure | running | phaseChanged | commandsWaiting => rfl

theorem clock_ofPast (past : List Moment) : (ofPast past).clock = past.length := by
  induction past using List.reverseRecOn with
  | nil => rfl
  | append_singleton past moment ih => rw [ofPast_concat, clock_live, ih, List.length_append, List.length_singleton]

theorem tiles_live (model : Model) {moment : Moment} (other : ∀ num < 128, ¬moment.TellsOf num) :
    (model.live moment).tiles = model.tiles := by
  cases moment with
  | turn => rfl
  | applied event =>
    cases event with
    | shouting num value => exact (model.tick.setShouting_board num value).1
    | tile num x y letter lastPlayer isNew =>
      have beyond : ¬num < 128 := fun inside => other num inside rfl
      simp only [live, apply, change, setTile, if_neg beyond]
      rfl
    | header | name | status | message | failure | running | phaseChanged | commandsWaiting => rfl

def seen (model : Model) (x y : Int32) (letter : Char) (lastPlayer : Option Nat) : SeenTile :=
  ⟨x, y, letter, model.clock + 1, lastPlayer.isSome && lastPlayer = model.self⟩

theorem tiles_live_tile (model : Model) {num : Nat} (inside : num < 128) (x y : Int32) (letter : Char)
    (lastPlayer : Option Nat) (isNew : Bool) :
    (model.live (.applied (.tile num x y letter lastPlayer isNew))).tiles =
      model.tiles.place num (model.seen x y letter lastPlayer) := by
  simp only [live, apply, change, setTile, if_pos inside]
  rfl

end Model

theorem Moment.tells_cases (moment : Moment) :
    (∃ num x y letter lastPlayer isNew, num < 128 ∧ moment = .applied (.tile num x y letter lastPlayer isNew)) ∨
      ∀ num < 128, ¬moment.TellsOf num := by
  by_cases told : ∃ num < 128, moment.TellsOf num
  · obtain ⟨num, inside, tells⟩ := told
    cases moment with
    | turn => cases tells
    | applied event =>
      cases event with
      | tile other x y letter lastPlayer isNew =>
        obtain rfl := Option.some.inj tells
        exact Or.inl ⟨other, x, y, letter, lastPlayer, isNew, inside, rfl⟩
      | header | name | status | shouting | message | failure | running | phaseChanged | commandsWaiting =>
        cases tells
  · exact Or.inr fun num inside tells => told ⟨num, inside, tells⟩

/-- A tile is what the last moment that told of it made of it. -/
def Moment.Tells (past : List Moment) (num : Nat) (tile : SeenTile) : Prop :=
  ∃ before x y letter lastPlayer isNew after,
    past = before ++ .applied (.tile num x y letter lastPlayer isNew) :: after ∧
      (∀ moment ∈ after, ¬moment.TellsOf num) ∧ tile = (Model.ofPast before).seen x y letter lastPlayer

theorem Moment.tells_concat_other {moment : Moment} (other : ¬moment.TellsOf num) :
    Tells (past ++ [moment]) num tile ↔ Tells past num tile := by
  constructor
  · rintro ⟨before, x, y, letter, lastPlayer, isNew, after, whole, last, same⟩
    rcases split_concat whole with ⟨-, -, rfl⟩ | ⟨rest, rfl, earlier⟩
    · exact absurd rfl other
    · exact ⟨before, x, y, letter, lastPlayer, isNew, rest, earlier,
        fun moment member => last moment (List.mem_append_left _ member), same⟩
  · rintro ⟨before, x, y, letter, lastPlayer, isNew, after, rfl, last, same⟩
    refine ⟨before, x, y, letter, lastPlayer, isNew, after ++ [moment], ?_, ?_, same⟩
    · rw [List.append_assoc, List.cons_append]
    · exact List.forall_mem_append.2 ⟨last, List.forall_mem_singleton.2 other⟩

theorem Moment.tells_concat_tile (x y : Int32) (letter : Char) (lastPlayer : Option Nat) (isNew : Bool) :
    Tells (past ++ [.applied (.tile num x y letter lastPlayer isNew)]) num tile ↔
      tile = (Model.ofPast past).seen x y letter lastPlayer := by
  constructor
  · rintro ⟨before, _, _, _, _, _, after, whole, last, rfl⟩
    rcases split_concat whole with ⟨-, rfl, same⟩ | ⟨rest, rfl, -⟩
    · cases same
      rfl
    · exact absurd rfl (last _ (List.mem_append_right _ List.mem_cons_self))
  · rintro rfl
    exact ⟨past, x, y, letter, lastPlayer, isNew, [], rfl, List.forall_mem_nil _, rfl⟩

namespace Model

/-- What a model keeps of its past in its tiles. -/
structure Keeps (model : Model) (past : List Moment) : Prop where
  arranged : ∃ touched, model.tiles.Arranged touched
  told : ∀ num tile, model.tiles.get? num = some tile ↔ num < 128 ∧ Moment.Tells past num tile
  sorted : model.tiles.toList.Pairwise fun first second => first.2.updatedAt < second.2.updatedAt
  early : ∀ entry ∈ model.tiles.toList, entry.2.updatedAt ≤ model.clock

theorem keeps_nil : ({} : Model).Keeps [] where
  arranged := ⟨[], TileArena.arranged_empty⟩
  told num tile := by
    apply iff_of_false nofun
    rintro ⟨-, before, _, _, _, _, _, after, whole, -⟩
    exact List.append_ne_nil_of_right_ne_nil before (List.cons_ne_nil _ after) whole.symm
  sorted := List.Pairwise.nil
  early := List.forall_mem_nil _

theorem Keeps.concat (keeps : (ofPast past).Keeps past) (moment : Moment) :
    (ofPast (past ++ [moment])).Keeps (past ++ [moment]) := by
  rw [ofPast_concat]
  obtain ⟨touched, arranged⟩ := keeps.arranged
  have clock := clock_live (ofPast past) moment
  rcases moment.tells_cases with ⟨num, x, y, letter, lastPlayer, isNew, inside, rfl⟩ | other
  · have tiles := tiles_live_tile (ofPast past) inside x y letter lastPlayer isNew
    have listed := arranged.toList_place num ((ofPast past).seen x y letter lastPlayer)
    obtain ⟨later, placed, -⟩ := arranged.place num ((ofPast past).seen x y letter lastPlayer)
    constructor
    case arranged =>
      rw [tiles]
      exact ⟨_, placed⟩
    case told =>
      intro number tile
      rw [tiles, TileArena.get?_place arranged.sound]
      by_cases same : number = num
      · subst same
        rw [if_pos rfl, Moment.tells_concat_tile, and_iff_right inside, Option.some.injEq, eq_comm]
      · have apart : ¬(Moment.applied (.tile num x y letter lastPlayer isNew)).TellsOf number :=
          fun tells => same (Option.some.inj tells).symm
        rw [if_neg same, keeps.told, Moment.tells_concat_other apart]
    case sorted =>
      -- The tile goes last with a time that is later than all others.
      rw [tiles, listed, List.pairwise_append]
      refine ⟨keeps.sorted.filter _, List.pairwise_singleton _ _, ?_⟩
      intro entry member last here
      rw [List.mem_singleton.1 here]
      exact Nat.lt_succ_of_le (keeps.early entry (List.mem_of_mem_filter member))
    case early =>
      rw [tiles, listed, clock]
      intro entry member
      rcases List.mem_append.1 member with old | new
      · exact Nat.le_succ_of_le (keeps.early entry (List.mem_of_mem_filter old))
      · rw [List.mem_singleton.1 new]
        exact Nat.le_refl _
  · have tiles := tiles_live (ofPast past) other
    constructor
    case arranged =>
      rw [tiles]
      exact keeps.arranged
    case told =>
      intro num tile
      rw [tiles, keeps.told]
      exact and_congr_right fun inside => (Moment.tells_concat_other (other num inside)).symm
    case sorted =>
      rw [tiles]
      exact keeps.sorted
    case early =>
      rw [tiles, clock]
      exact fun entry member => Nat.le_succ_of_le (keeps.early entry member)

theorem keeps_ofPast (past : List Moment) : (ofPast past).Keeps past := by
  induction past using List.reverseRecOn with
  | nil => exact keeps_nil
  | append_singleton past moment ih => exact ih.concat moment

theorem get?_eq_none_iff (inside : num < 128) (past : List Moment) :
    (ofPast past).tiles.get? num = none ↔ ∀ moment ∈ past, ¬moment.TellsOf num := by
  induction past using List.reverseRecOn with
  | nil => exact iff_of_true rfl (List.forall_mem_nil _)
  | append_singleton past moment ih =>
    rw [ofPast_concat, List.forall_mem_append, List.forall_mem_singleton, ← ih]
    rcases moment.tells_cases with ⟨other, x, y, letter, lastPlayer, isNew, within, rfl⟩ | other
    · obtain ⟨touched, arranged⟩ := (keeps_ofPast past).arranged
      rw [tiles_live_tile _ within, TileArena.get?_place arranged.sound]
      by_cases same : num = other
      · subst same
        rw [if_pos rfl]
        exact iff_of_false nofun fun both => both.2 rfl
      · have apart : ¬(Moment.applied (.tile other x y letter lastPlayer isNew)).TellsOf num :=
          fun tells => same (Option.some.inj tells).symm
        rw [if_neg same, and_iff_left apart]
    · rw [tiles_live _ other, and_iff_left (other num inside)]

end Model

end TileRoom
