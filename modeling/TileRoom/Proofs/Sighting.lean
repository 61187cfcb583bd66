import TileRoom.Proofs.ConnectionSteps
import TileRoom.Proofs.IndexSets

/-! The tiles that a connection knows. They are those its news told of, whatever became of the
streams they came from, so an event says that a tile is new when no event before it told of the
tile. -/

namespace TileRoom

namespace Event

variable {events before : List Event} {event : Event}

/-- An event that tells of a tile says whether an event before it did. -/
def Flagged (before : List Event) : Event → Prop
  | .tile num _ _ _ _ isNew => num < 128 ∧ (isNew = true ↔ ∀ event ∈ before, event.tile? ≠ some num)
  | _ => True

def AllFlagged (events : List Event) : Prop :=
  ∀ before event after, events = before ++ event :: after → event.Flagged before

theorem flagged_other (before : List Event) (other : event.tile? = none) : event.Flagged before := by
  cases event with
  | tile => cases other
  | header | name | status | shouting | message | failure | running | phaseChanged | commandsWaiting => trivial

theorem Flagged.filter (flagged : event.Flagged before) : event.Flagged (before.filter isPublic) := by
  cases event with
  | tile num x y letter lastPlayer isNew =>
    refine ⟨flagged.1, flagged.2.trans ?_⟩
    constructor
    · exact fun absent event member => absent event (List.mem_filter.1 member).1
    · intro absent event member tells
      have isPublic : event.isPublic = true := by
        cases event with
        | commandsWaiting => cases tells
        | header | name | status | shouting | tile | message | failure | running | phaseChanged => rfl
      exact absent event (List.mem_filter.2 ⟨member, isPublic⟩) tells
  | header | name | status | shouting | message | failure | running | phaseChanged | commandsWaiting => trivial

theorem allFlagged_nil : AllFlagged [] := by
  intro before event after whole
  exact absurd whole.symm (List.append_ne_nil_of_right_ne_nil before (List.cons_ne_nil event after))

theorem AllFlagged.concat (all : AllFlagged events) (last : event.Flagged events) : AllFlagged (events ++ [event]) := by
  intro before other after whole
  rcases split_concat whole with ⟨-, rfl, rfl⟩ | ⟨rest, -, earlier⟩
  · exact last
  · exact all before other rest earlier

theorem AllFlagged.front {early : List Event} (all : AllFlagged events) (first : early <+: events) :
    AllFlagged early := by
  intro before event after whole
  obtain ⟨rest, rfl⟩ := first
  refine all before event (after ++ rest) ?_
  rw [whole, List.append_assoc, List.cons_append]

theorem AllFlagged.filter (all : AllFlagged events) : AllFlagged (events.filter isPublic) := by
  intro before event after whole
  obtain ⟨front, back, rfl, rfl, rest⟩ := List.filter_eq_append_iff.1 whole
  obtain ⟨hidden, later, rfl, apart, -, -⟩ := List.filter_eq_cons_iff.1 rest
  have flagged := (all (front ++ hidden) event later (List.append_assoc ..).symm).filter
  rwa [List.filter_append, List.filter_eq_nil_iff.2 apart, List.append_nil] at flagged

end Event

namespace Heard

variable {heard : Heard}

/-- A connection knows the tiles that its news told of, and these say so. -/
structure Sights (heard : Heard) : Prop where
  known : ∀ num, heard.connection.knownTiles.contains num = true ↔ ∃ event ∈ heard.events, event.tile? = some num
  flagged : Event.AllFlagged heard.events

theorem Sights.quietly (sights : heard.Sights) {change : Connection → Connection}
    (kept : (change heard.connection).knownTiles = heard.connection.knownTiles) : (heard.quietly change).Sights where
  known num := by
    rw [Heard.quietly, kept]
    exact sights.known num
  flagged := sights.flagged

theorem Sights.announce (sights : heard.Sights) {event : Event} (other : event.tile? = none) :
    (heard.announce event).Sights where
  known num := by
    have silent : ¬∃ told ∈ [event], told.tile? = some num := by
      rintro ⟨told, member, tells⟩
      rw [List.mem_singleton.1 member, other] at tells
      cases tells
    rw [Heard.announce, sights.known]
    simp only [List.mem_append, or_and_right, exists_or, or_iff_left silent]
  flagged := sights.flagged.concat (Event.flagged_other _ other)

theorem Sights.setPhase (sights : heard.Sights) (phase : ConnectionPhase) : (heard.setPhase phase).Sights := by
  unfold Heard.setPhase
  split
  · exact sights
  · exact (sights.quietly rfl).announce rfl

theorem Sights.setRunning (sights : heard.Sights) (running : Bool) : (heard.setRunning running).Sights := by
  unfold Heard.setRunning
  split
  · exact sights
  · exact (sights.quietly rfl).announce rfl

theorem Sights.handleTile (sights : heard.Sights) (num : Nat) (x y : Int32) (letter : Char)
    (lastPlayer : Option Nat) : (heard.handleTile num x y letter lastPlayer).Sights := by
  unfold Heard.handleTile
  by_cases inside : num < 128
  · rw [if_pos inside]
    constructor
    case known =>
      intro other
      change (heard.connection.knownTiles.insert num).contains other = true ↔ _
      rw [IndexSet.contains_insert_iff, sights.known, and_iff_right inside, Heard.announce]
      simp only [List.mem_append, List.mem_singleton, or_and_right, exists_or, exists_eq_left, Event.tile?,
        Option.some.injEq, eq_comm]
      rfl
    case flagged =>
      apply sights.flagged.concat
      refine ⟨inside, ?_⟩
      rw [Bool.not_eq_true', ← Bool.not_eq_true, sights.known]
      exact ⟨fun absent event member tells => absent ⟨event, member, tells⟩,
        fun absent ⟨event, member, tells⟩ => absent event member tells⟩
  · rw [if_neg inside]
    exact sights

theorem Sights.handle (sights : heard.Sights) (frame : Frame) : (heard.handle frame).Sights := by
  cases frame with
  | header num id =>
    have known : (heard.quietly ({ · with id := some id, self := some num })).Sights := sights.quietly rfl
    have told : ((heard.quietly ({ · with id := some id, self := some num })).announce (.header num)).Sights :=
      known.announce rfl
    have begun := told.setPhase .inProgress
    simp only [Heard.handle, handleHeader]
    split
    · exact begun
    · exact begun.announce rfl
  | tile num x y letter lastPlayer => exact sights.handleTile num x y letter lastPlayer
  | finish => exact (sights.setPhase .done).setRunning false
  | message => exact (sights.quietly rfl).announce rfl
  | playerName | player | shout => exact sights.announce rfl
  | padding | unknown => exact sights

theorem Sights.foldl_handle (sights : heard.Sights) (frames : List Frame) : (frames.foldl Heard.handle heard).Sights := by
  induction frames generalizing heard with
  | nil => exact sights
  | cons frame rest ih => exact ih (sights.handle frame)

theorem Sights.after (sights : heard.Sights) (step : ConnectionStep) : (heard.after step).Sights := by
  cases step with
  | begin key =>
    rw [after_begin]
    exact (sights.quietly rfl).setRunning true
  | receive data =>
    obtain ⟨stream, read⟩ := heard.after_receive data
    rw [read]
    apply Sights.foldl_handle
    exact sights.quietly rfl
  | fail message =>
    rw [after_fail]
    exact ((sights.quietly rfl).announce rfl).setRunning false
  | stop =>
    rw [after_stop]
    exact sights.setRunning false
  | issue command =>
    rw [after_issue]
    exact (sights.quietly rfl).announce rfl
  | take =>
    rw [after_take]
    apply sights.quietly
    unfold Connection.takeCommands
    split <;> rfl

theorem knownTiles_after (heard : Heard) {step : ConnectionStep} (unread : ∀ data, step ≠ .receive data) :
    (heard.after step).connection.knownTiles = heard.connection.knownTiles := by
  cases step with
  | begin key =>
    rw [after_begin, connection_setRunning]
    rfl
  | receive data => exact absurd rfl (unread data)
  | fail message =>
    rw [after_fail, connection_setRunning]
    rfl
  | stop =>
    rw [after_stop, connection_setRunning]
  | issue command => rfl
  | take =>
    rw [after_take, quietly, Connection.takeCommands]
    split <;> rfl

theorem knownTiles_run {steps : List ConnectionStep} (unread : ∀ data, .receive data ∉ steps) (heard : Heard) :
    (heard.run steps).connection.knownTiles = heard.connection.knownTiles := by
  induction steps generalizing heard with
  | nil => rfl
  | cons step rest ih =>
    have first : ∀ data, step ≠ .receive data := fun data same => unread data (same ▸ List.mem_cons_self)
    have later : ∀ data, .receive data ∉ rest := fun data member => unread data (List.mem_cons_of_mem step member)
    exact (ih later (heard.after step)).trans (heard.knownTiles_after first)

theorem sights_unread (room name : String) {steps : List ConnectionStep} (unread : ∀ data, .receive data ∉ steps) :
    Sights { connection := (run { connection := { room, name } } steps).connection } where
  known num := by
    rw [knownTiles_run unread, IndexSet.contains_empty]
    exact iff_of_false nofun fun ⟨_, member, _⟩ => absurd member List.not_mem_nil
  flagged := Event.allFlagged_nil

end Heard

end TileRoom
