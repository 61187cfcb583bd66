import TileRoom.Proofs.Noticing

/-! What the notices of a room report. A room has five parts, and each change is about one of
them. An edit touches the part its change is about and no other, and makes no difference but the
one it names. Each operation may change a part or two and tells of each at most once, so its
notices name every difference once and no difference that is not there. -/

namespace TileRoom

inductive RoomPart where
  | game
  | players
  | messages
  | tiles
  | shout
deriving DecidableEq

def RoomPart.Same (before after : Conversation) : RoomPart → Prop
  | .game => after.started = before.started
  | .players => after.players = before.players
  | .messages => after.messages = before.messages
  | .tiles => after.tiles = before.tiles ∧ after.bag = before.bag
  | .shout => after.shout = before.shout

def Action.parts : Action → List RoomPart
  | .join _ => [.players, .game]
  | .start => [.game]
  | .say .. => [.messages]
  | .typing .. => [.players]
  | .leave _ => [.shout, .players]
  | .shout .. | .expire .. => [.shout]
  | .turn _ => [.game, .tiles]
  | .move .. => [.tiles]

theorem Action.parts_nodup (action : Action) : action.parts.Nodup := by
  cases action <;> simp [parts]

def Player.status (player : Player) : Bool × Bool :=
  (player.connected, player.typing)

def Tile.place (tile : Tile) : Int32 × Int32 × Option Nat :=
  (tile.x, tile.y, tile.lastPlayer)

namespace Change

def part : Change → RoomPart
  | .started => .game
  | .messageAdded => .messages
  | .tile _ => .tiles
  | .shouting _ => .shout
  | .player _ => .players

/-- The difference that a change reports. A record that is new differs from the one that was not
there. -/
def Occurred (before after : Conversation) : Change → Prop
  | .started => after.started ≠ before.started
  | .messageAdded => before.messages.length < after.messages.length
  | .tile num => (after.tiles[num]?).map Tile.place ≠ (before.tiles[num]?).map Tile.place
  | .shouting num => ¬(after.shouter? = some num ↔ before.shouter? = some num)
  | .player num => (after.players[num]?).map Player.status ≠ (before.players[num]?).map Player.status

end Change

namespace RoomPart

variable {before middle after : Conversation} {part : RoomPart}

theorem Same.refl (room : Conversation) (part : RoomPart) : part.Same room room := by
  cases part <;> first | rfl | exact ⟨rfl, rfl⟩

theorem Same.trans (first : part.Same before middle) (last : part.Same middle after) :
    part.Same before after := by
  cases part with
  | game | players | messages | shout => exact Eq.trans last first
  | tiles => exact ⟨last.1.trans first.1, last.2.trans first.2⟩

end RoomPart

namespace Change

variable {before after : Conversation} {change : Change}

theorem occurred_congr {first last : Conversation} (start : change.part.Same before first)
    (finish : change.part.Same after last) : change.Occurred before after ↔ change.Occurred first last := by
  cases change with
  | started =>
    rw [Occurred, Occurred, show first.started = before.started from start,
      show last.started = after.started from finish]
  | messageAdded =>
    rw [Occurred, Occurred, show first.messages = before.messages from start,
      show last.messages = after.messages from finish]
  | tile num =>
    rw [Occurred, Occurred, show first.tiles = before.tiles from start.1,
      show last.tiles = after.tiles from finish.1]
  | shouting num =>
    rw [Occurred, Occurred, Conversation.shouter?, Conversation.shouter?, Conversation.shouter?,
      Conversation.shouter?, show first.shout = before.shout from start,
      show last.shout = after.shout from finish]
  | player num =>
    rw [Occurred, Occurred, show first.players = before.players from start,
      show last.players = after.players from finish]

theorem not_occurred_self (room : Conversation) (change : Change) : ¬change.Occurred room room := by
  cases change with
  | started | tile | player => exact fun other => other rfl
  | messageAdded => exact Nat.lt_irrefl _
  | shouting => exact fun other => other Iff.rfl

end Change

theorem map_getElem?_concat_ne_iff {record value : Type} (f : record → value) (records : List record)
    (added : record) (num : Nat) :
    ((records ++ [added])[num]?).map f ≠ (records[num]?).map f ↔ num = records.length := by
  rcases Nat.lt_trichotomy num records.length with inside | rfl | beyond
  · rw [List.getElem?_append_left inside]
    exact iff_of_false (· rfl) (Nat.ne_of_lt inside)
  · rw [List.getElem?_concat_length, List.getElem?_eq_none (Nat.le_refl _)]
    exact iff_of_true nofun rfl
  · have past : (records ++ [added]).length ≤ num := by
      rw [List.length_append, List.length_singleton]
      exact beyond
    rw [List.getElem?_eq_none past, List.getElem?_eq_none (Nat.le_of_lt beyond)]
    exact iff_of_false (· rfl) (Nat.ne_of_gt beyond)

theorem map_getElem?_set_ne_iff {record value : Type} (f : record → value) {records : List record}
    {place : Nat} {found later : record} (known : records[place]? = some found) (other : f later ≠ f found)
    (num : Nat) : ((records.set place later)[num]?).map f ≠ (records[num]?).map f ↔ num = place := by
  by_cases here : place = num
  · subst here
    rw [List.getElem?_set_self (List.getElem?_eq_some_iff.1 known).1, known]
    exact iff_of_true (fun same => other (Option.some.inj same)) rfl
  · rw [List.getElem?_set_ne here]
    exact iff_of_false (· rfl) (Ne.symm here)

namespace Conversation

variable {room after : Conversation} {change : Change}

theorem Edit.same (edit : Edit room change after) {part : RoomPart} (other : part ≠ change.part) :
    part.Same room after := by
  cases edit <;> cases part <;> first | rfl | exact ⟨rfl, rfl⟩ | exact absurd rfl other

theorem Edit.occurred_own (edit : Edit room change after) {other : Change} (about : other.part = change.part) :
    other.Occurred room after ↔ other = change := by
  cases edit with
  | started waiting =>
    cases other <;> simp only [Change.part, reduceCtorEq] at about
    refine iff_of_true ?_ rfl
    rw [Change.Occurred, waiting]
    exact Bool.noConfusion
  | joined name free =>
    cases other <;> simp only [Change.part, reduceCtorEq] at about
    rw [Change.player.injEq]
    exact map_getElem?_concat_ne_iff Player.status room.players _ _
  | said text connected =>
    cases other <;> simp only [Change.part, reduceCtorEq] at about
    refine iff_of_true ?_ rfl
    rw [Change.Occurred, List.length_append]
    exact Nat.lt_succ_self _
  | typed typing known connected different =>
    cases other <;> simp only [Change.part, reduceCtorEq] at about
    rw [Change.player.injEq]
    exact map_getElem?_set_ne_iff Player.status known (fun same => different (Prod.mk.inj same).2.symm) _
  | left known connected silent =>
    cases other <;> simp only [Change.part, reduceCtorEq] at about
    rw [Change.player.injEq]
    refine map_getElem?_set_ne_iff Player.status known (fun same => ?_) _
    have gone := (Prod.mk.inj same).1
    rw [connected] at gone
    cases gone
  | shouted now connected free =>
    cases other <;> simp only [Change.part, reduceCtorEq] at about
    rw [Change.shouting.injEq, Change.Occurred, shouter?, shouter?, free]
    simp only [Option.map_some, Option.map_none, Option.some.injEq, reduceCtorEq, iff_false, Classical.not_not]
    exact eq_comm
  | hushed current =>
    cases other <;> simp only [Change.part, reduceCtorEq] at about
    rw [Change.shouting.injEq, Change.Occurred, shouter?, shouter?, current]
    simp only [Option.map_some, Option.map_none, Option.some.injEq, reduceCtorEq, false_iff, Classical.not_not]
    exact eq_comm
  | turned connected begun full =>
    cases other <;> simp only [Change.part, reduceCtorEq] at about
    rw [Change.tile.injEq]
    exact map_getElem?_concat_ne_iff Tile.place room.tiles _ _
  | @moved _ _ found x y connected laid different =>
    cases other <;> simp only [Change.part, reduceCtorEq] at about
    rw [Change.tile.injEq]
    refine map_getElem?_set_ne_iff Tile.place laid (fun same => different ?_) _
    simp only [Tile.place, Prod.mk.injEq] at same
    rw [same.1, same.2.1, same.2.2]

theorem Edit.occurred_iff (edit : Edit room change after) (other : Change) :
    other.Occurred room after ↔ other = change := by
  by_cases about : other.part = change.part
  · exact edit.occurred_own about
  · have none : ¬other.Occurred room after := fun occurred =>
      other.not_occurred_self room ((Change.occurred_congr (.refl _ _) (edit.same about)).2 occurred)
    exact iff_of_false none fun same => about (congrArg Change.part same)

theorem parts_unchanged {answer : Type} (room : Conversation) (value : answer) (parts : List RoomPart) :
    ((room.unchanged value).changes.map Change.part).Sublist parts :=
  List.nil_sublist parts

theorem parts_changed {answer : Type} (after : Conversation) (value : answer) (change : Change) :
    ((changed after value change).changes.map Change.part).Sublist [change.part] :=
  .refl [change.part]

theorem parts_start (room : Conversation) : (room.start.changes.map Change.part).Sublist [.game] := by
  unfold start
  split
  · exact parts_unchanged room () _
  · exact parts_changed _ () .started

theorem parts_endShout (room : Conversation) : (room.endShout.changes.map Change.part).Sublist [.shout] := by
  unfold endShout
  split
  · exact parts_changed _ () (.shouting _)
  · exact parts_unchanged room () _

theorem parts_act (room : Conversation) (action : Action) :
    ((room.act action).changes.map Change.part).Sublist action.parts := by
  cases action with
  | join name =>
    show ((room.join name).changes.map Change.part).Sublist [.players, .game]
    unfold join
    split
    · dsimp only
      split
      · exact (parts_start _).cons_cons RoomPart.players
      · exact (List.nil_sublist [RoomPart.game]).cons_cons RoomPart.players
    · exact parts_unchanged room none _
  | start => exact parts_start room
  | say player text =>
    show ((room.say player text).changes.map Change.part).Sublist [.messages]
    unfold say
    split
    · exact parts_changed _ () .messageAdded
    · exact parts_unchanged room () _
  | typing player value =>
    show ((room.setTyping player value).changes.map Change.part).Sublist [.players]
    unfold setTyping
    split
    · split
      · exact parts_changed _ () (.player player)
      · exact parts_unchanged room () _
    · exact parts_unchanged room () _
  | leave player =>
    show ((room.leave player).changes.map Change.part).Sublist [.shout, .players]
    unfold leave
    split
    · split
      · have quiet : ((if room.shouter? = some player then room.endShout else room.unchanged ()).changes.map
            Change.part).Sublist [.shout] := by
          split
          · exact parts_endShout room
          · exact parts_unchanged room () _
        rw [Outcome.changes, List.map_append, List.map_append]
        exact (List.append_sublist_append_right [RoomPart.players]).2 quiet
      · exact parts_unchanged room () _
    · exact parts_unchanged room () _
  | shout player now =>
    show ((room.beginShout player now).changes.map Change.part).Sublist [.shout]
    unfold beginShout
    split
    · exact parts_changed _ true (.shouting player)
    · exact parts_unchanged room false _
  | expire now duration =>
    show ((room.expireShout now duration).changes.map Change.part).Sublist [.shout]
    unfold expireShout
    split
    · split
      · exact parts_endShout room
      · exact parts_unchanged room () _
    · exact parts_unchanged room () _
  | turn player =>
    show ((room.turn player).changes.map Change.part).Sublist [.game, .tiles]
    unfold turn
    split
    · dsimp only
      split
      · exact (parts_start room).trans (List.sublist_append_left [RoomPart.game] [RoomPart.tiles])
      · rw [Outcome.changes, List.map_append, List.map_append]
        exact (List.append_sublist_append_right [RoomPart.tiles]).2 (parts_start room)
    · exact parts_unchanged room none _
  | move player tile x y =>
    show ((room.move player tile x y).changes.map Change.part).Sublist [.tiles]
    unfold move
    split
    · split
      · dsimp only
        split
        · exact parts_unchanged room () _
        · exact parts_changed _ () (.tile tile)
      · exact parts_unchanged room () _
    · exact parts_unchanged room () _

section

variable {notices : List Notice}

theorem Effect.same (effect : Effect room notices after) {part : RoomPart}
    (none : ∀ notice ∈ notices, notice.change.part ≠ part) : part.Same room after := by
  cases effect with
  | nothing => exact .refl room part
  | one edit => exact edit.same (none _ List.mem_cons_self).symm
  | two edit last =>
    obtain ⟨first, others⟩ := List.forall_mem_cons.1 none
    exact (edit.same first.symm).trans (last.same (others _ List.mem_cons_self).symm)

theorem Effect.occurred_iff (effect : Effect room notices after)
    (apart : (notices.map (·.change.part)).Nodup) (other : Change) :
    other ∈ notices.map (·.change) ↔ other.Occurred room after := by
  cases effect with
  | nothing => exact iff_of_false List.not_mem_nil (other.not_occurred_self room)
  | one edit => exact List.mem_singleton.trans (edit.occurred_iff other).symm
  | @two change next middle _ edit last =>
    have differ : change.part ≠ next.part := (List.pairwise_cons.1 apart).1 _ List.mem_cons_self
    rw [List.map_cons, List.map_singleton, List.mem_cons, List.mem_singleton]
    -- The edit of the other part shows nothing of the part that the change is about.
    by_cases here : other.part = change.part
    · have kept : other.part.Same middle after := last.same (here ▸ differ)
      rw [← Change.occurred_congr (.refl room _) kept, edit.occurred_iff]
      apply or_iff_left
      rintro rfl
      exact differ here.symm
    · have kept : other.part.Same room middle := edit.same here
      rw [Change.occurred_congr kept (.refl after _), last.occurred_iff]
      apply or_iff_right
      rintro rfl
      exact here rfl

theorem Effect.shown (effect : Effect room notices after) (apart : (notices.map (·.change.part)).Nodup) :
    ∀ notice ∈ notices, notice.change.part.Same notice.seen after := by
  intro notice member
  cases effect with
  | nothing => exact absurd member List.not_mem_nil
  | one edit =>
    obtain rfl := List.mem_singleton.1 member
    exact .refl _ _
  | two edit last =>
    have differ := (List.pairwise_cons.1 apart).1 _ List.mem_cons_self
    rcases List.mem_cons.1 member with rfl | second
    · exact last.same differ
    · obtain rfl := List.mem_singleton.1 second
      exact .refl _ _

end

theorem act_same (room : Conversation) {action : Action} {part : RoomPart} (other : part ∉ action.parts) :
    part.Same room (room.act action).after := by
  apply (effect_act room action).same
  rintro notice member rfl
  exact other ((parts_act room action).subset (List.mem_map_of_mem (List.mem_map_of_mem member)))

/-- What the notices of an operation report of it: each of its changes once and nothing else,
to listeners who see it made. -/
structure Reports (before : Conversation) (notices : List Notice) (after : Conversation) : Prop where
  once : (notices.map (·.change)).Nodup
  truthful : ∀ change, change ∈ notices.map (·.change) ↔ change.Occurred before after
  shown : ∀ notice ∈ notices, notice.change.part.Same notice.seen after
  untouched : ∀ part, (∀ notice ∈ notices, notice.change.part ≠ part) → part.Same before after
  silent : notices = [] → after = before

/-- The notices of an operation report exactly the changes it makes. -/
theorem act_reports (room : Conversation) (action : Action) :
    room.Reports (room.act action).notices (room.act action).after := by
  have effect := effect_act room action
  have distinct : ((room.act action).changes.map Change.part).Nodup :=
    action.parts_nodup.sublist (parts_act room action)
  have apart : ((room.act action).notices.map (·.change.part)).Nodup := by
    rwa [Outcome.changes, List.map_map] at distinct
  constructor
  · exact List.Pairwise.of_map Change.part (fun _ _ differ same => differ (congrArg _ same)) distinct
  · exact effect.occurred_iff apart
  · exact effect.shown apart
  · exact fun part none => effect.same none
  · exact fun none => act_silent (congrArg (List.map _) none)

end Conversation

end TileRoom
