import Mathlib.Data.List.Forall2
import TileRoom.Proofs.ConnectionSteps

/-! The commands of a client. Whatever happens to its connection, they wait there as they were
issued until the client knows its id, and each is taken once, as a request with the id known by
then. When some can be taken, an event has called for it since the last time they were. -/

namespace TileRoom

def Frame.lastId? (frames : List Frame) : Option PersonId :=
  (last? header? frames).map (·.2)

theorem Frame.lastId?_append (early late : List Frame) :
    lastId? (early ++ late) = (lastId? late).or (lastId? early) := by
  rw [lastId?, lastId?, lastId?, last?_append]
  cases last? header? late <;> rfl

theorem Frame.foldl_header (frames : List Frame) (known : Option PersonId) :
    frames.foldl (fun id frame => (frame.header?.map (·.2)).or id) known = (lastId? frames).or known := by
  induction frames generalizing known with
  | nil => rfl
  | cons frame rest ih =>
    have first : lastId? [frame] = frame.header?.map (·.2) := by
      cases frame <;> rfl
    rw [List.foldl_cons, ih, ← List.singleton_append, lastId?_append, first, Option.or_assoc]

theorem Frame.lastId?_eq_none_iff (frames : List Frame) :
    lastId? frames = none ↔ ∀ num id, .header num id ∉ frames := by
  rw [lastId?, last?, Option.map_eq_none_iff, List.getLast?_eq_none_iff, List.filterMap_eq_nil_iff]
  constructor
  · intro none num id member
    cases none _ member
  · intro absent frame member
    cases frame with
    | header num id => exact absurd member (absent num id)
    | playerName | player | message | shout | tile | finish | padding | unknown => rfl

namespace Heard

variable {heard : Heard}

/-- Commands that can be taken were called for. -/
def Called (heard : Heard) : Prop :=
  heard.connection.id ≠ none → heard.connection.pending ≠ [] → .commandsWaiting ∈ heard.events

theorem Called.same (called : heard.Called) {later : Heard} (id : later.connection.id = heard.connection.id)
    (pending : later.connection.pending = heard.connection.pending) (events : heard.events <+: later.events) :
    later.Called := by
  intro known waiting
  rw [id] at known
  rw [pending] at waiting
  exact events.subset (called known waiting)

theorem Called.setPhase (called : heard.Called) (phase : ConnectionPhase) : (heard.setPhase phase).Called := by
  unfold Heard.setPhase
  split
  · exact called
  · exact called.same rfl rfl (List.prefix_append _ _)

theorem Called.setRunning (called : heard.Called) (running : Bool) : (heard.setRunning running).Called := by
  unfold Heard.setRunning
  split
  · exact called
  · exact called.same rfl rfl (List.prefix_append _ _)

theorem called_announce_waiting (heard : Heard) : (heard.announce .commandsWaiting).Called :=
  fun _ _ => List.mem_append_right _ List.mem_cons_self

theorem Called.handle (called : heard.Called) (frame : Frame) : (heard.handle frame).Called := by
  cases frame with
  | header num id =>
    -- Whether an id was known before or not, the header itself calls for the commands that wait.
    simp only [Heard.handle, handleHeader]
    split
    next none => exact fun _ waiting => absurd none waiting
    next => exact called_announce_waiting _
  | tile num x y letter lastPlayer =>
    simp only [Heard.handle, handleTile]
    split
    · exact called.same rfl rfl (List.prefix_append _ _)
    · exact called
  | finish => exact (called.setPhase .done).setRunning false
  | playerName | player | message | shout => exact called.same rfl rfl (List.prefix_append _ _)
  | padding | unknown => exact called

theorem Called.foldl_handle (called : heard.Called) (frames : List Frame) : (frames.foldl Heard.handle heard).Called := by
  induction frames generalizing heard with
  | nil => exact called
  | cons frame rest ih => exact ih (called.handle frame)

theorem id_foldl_handle (frames : List Frame) (heard : Heard) :
    (frames.foldl Heard.handle heard).connection.id = (Frame.lastId? frames).or heard.connection.id := by
  obtain ⟨_, _, reads⟩ := foldl_handle_spec frames heard
  rw [reads.person, Frame.foldl_header]

theorem Called.after (called : heard.Called) (step : ConnectionStep) : (heard.after step).Called := by
  cases step with
  | begin key =>
    rw [after_begin]
    apply Called.setRunning
    exact called.same rfl rfl List.prefix_rfl
  | receive data =>
    obtain ⟨stream, read⟩ := heard.after_receive data
    rw [read]
    apply Called.foldl_handle
    exact called.same rfl rfl List.prefix_rfl
  | fail message =>
    rw [after_fail]
    apply Called.setRunning
    exact called.same rfl rfl (List.prefix_append _ _)
  | stop =>
    rw [after_stop]
    exact called.setRunning false
  | issue command =>
    rw [after_issue]
    exact called_announce_waiting _
  | take =>
    rw [after_take, quietly, Connection.takeCommands]
    split
    next unknown => exact fun known => absurd unknown known
    next => exact fun _ waiting => absurd rfl waiting

theorem id_after (heard : Heard) (step : ConnectionStep) :
    (heard.after step).connection.id = (Frame.lastId? (heard.connection.handled step)).or heard.connection.id := by
  cases step with
  | begin key =>
    rw [after_begin, connection_setRunning]
    rfl
  | receive data =>
    obtain ⟨stream, read⟩ := heard.after_receive data
    rw [read, id_foldl_handle]
    rfl
  | fail message =>
    rw [after_fail, connection_setRunning]
    rfl
  | stop =>
    rw [after_stop, connection_setRunning]
    rfl
  | issue command => rfl
  | take =>
    rw [after_take, quietly, Connection.takeCommands]
    split <;> rfl

theorem pending_after (heard : Heard) {step : ConnectionStep} (stays : step ≠ .take) :
    (heard.after step).connection.pending = heard.connection.pending ++ ConnectionStep.issued [step] := by
  cases step with
  | begin key =>
    rw [after_begin, connection_setRunning]
    exact (List.append_nil _).symm
  | receive data =>
    obtain ⟨stream, read⟩ := heard.after_receive data
    rw [read, (foldl_handle_keeps _ _).2]
    exact (List.append_nil _).symm
  | fail message =>
    rw [after_fail, connection_setRunning]
    exact (List.append_nil _).symm
  | stop =>
    rw [after_stop, connection_setRunning]
    exact (List.append_nil _).symm
  | issue command => rfl
  | take => exact absurd rfl stays

end Heard

/-- A taking of commands: the frames that were handled before it, and the requests it gave. -/
structure Taking where
  before : List Frame
  requests : List Request

/-- The requests of a taking are made of some commands, with the id known by then; without one there
are none. -/
def Taking.Sends (taking : Taking) (commands : List Command) : Prop :=
  match Frame.lastId? taking.before with
  | none => taking.requests = [] ∧ commands = []
  | some id => taking.requests = commands.map (Command.request id)

theorem Taking.sends_each {takings : List Taking} {parts : List (List Command)}
    (sends : List.Forall₂ Taking.Sends takings parts) : ∀ taking ∈ takings, ∃ commands, taking.Sends commands := by
  induction sends with
  | nil => exact List.forall_mem_nil _
  | cons sent _ ih => exact List.forall_mem_cons.2 ⟨⟨_, sent⟩, ih⟩

structure Dispatch where
  heard : Heard
  frames : List Frame := []
  takings : List Taking := []

namespace Dispatch

variable {dispatch : Dispatch} {issued : List Command}

def take (dispatch : Dispatch) : Dispatch :=
  { dispatch with
    heard := { connection := dispatch.heard.connection.takeCommands.2 }
    takings := dispatch.takings ++ [⟨dispatch.frames, dispatch.heard.connection.takeCommands.1⟩] }

def pass (dispatch : Dispatch) (step : ConnectionStep) : Dispatch :=
  { dispatch with
    heard := dispatch.heard.after step
    frames := dispatch.frames ++ dispatch.heard.connection.handled step }

def step (dispatch : Dispatch) : ConnectionStep → Dispatch
  | .take => dispatch.take
  | step => dispatch.pass step

def run (dispatch : Dispatch) (steps : List ConnectionStep) : Dispatch :=
  steps.foldl step dispatch

structure Keeps (dispatch : Dispatch) (issued : List Command) : Prop where
  known : dispatch.heard.connection.id = Frame.lastId? dispatch.frames
  sent : ∃ parts, List.Forall₂ Taking.Sends dispatch.takings parts ∧
    parts.flatten ++ dispatch.heard.connection.pending = issued
  called : dispatch.heard.Called

theorem keeps_start (room name : String) : Keeps { heard := { connection := { room, name } } } [] :=
  ⟨rfl, ⟨[], .nil, rfl⟩, fun known => absurd rfl known⟩

theorem Keeps.pass (keeps : dispatch.Keeps issued) {step : ConnectionStep} (stays : step ≠ .take) :
    (dispatch.pass step).Keeps (issued ++ ConnectionStep.issued [step]) := by
  obtain ⟨parts, sends, all⟩ := keeps.sent
  refine ⟨?_, ⟨parts, sends, ?_⟩, keeps.called.after step⟩
  · rw [Dispatch.pass, Heard.id_after, Frame.lastId?_append, keeps.known]
  · rw [Dispatch.pass, Heard.pending_after _ stays, ← all, List.append_assoc]

theorem Keeps.take (keeps : dispatch.Keeps issued) : dispatch.take.Keeps issued := by
  obtain ⟨parts, sends, all⟩ := keeps.sent
  have known := keeps.known
  cases id : dispatch.heard.connection.id with
  | none =>
    have taken : dispatch.heard.connection.takeCommands = ([], dispatch.heard.connection) := by
      rw [Connection.takeCommands, id]
    have sent : Taking.Sends ⟨dispatch.frames, []⟩ [] := by
      rw [Taking.Sends, ← known, id]
      exact ⟨rfl, rfl⟩
    rw [Dispatch.take, taken]
    refine ⟨known, ⟨parts ++ [[]], List.rel_append sends (.cons sent .nil), ?_⟩, fun some => absurd id some⟩
    rw [List.flatten_append, List.append_assoc]
    exact all
  | some person =>
    have taken : dispatch.heard.connection.takeCommands =
        (dispatch.heard.connection.pending.map (Command.request person),
          { dispatch.heard.connection with pending := [] }) := by
      simp only [Connection.takeCommands, id]
    have sent : Taking.Sends ⟨dispatch.frames, dispatch.heard.connection.pending.map (Command.request person)⟩
        dispatch.heard.connection.pending := by
      rw [Taking.Sends, ← known, id]
    rw [Dispatch.take, taken]
    refine ⟨known, ⟨parts ++ [dispatch.heard.connection.pending], List.rel_append sends (.cons sent .nil), ?_⟩,
      fun _ none => absurd rfl none⟩
    rw [List.flatten_append, List.flatten_singleton, List.append_nil]
    exact all

theorem Keeps.step (keeps : dispatch.Keeps issued) (step : ConnectionStep) :
    (dispatch.step step).Keeps (issued ++ ConnectionStep.issued [step]) := by
  cases step with
  | take =>
    rw [show ConnectionStep.issued [.take] = [] from rfl, List.append_nil]
    exact keeps.take
  | begin | receive | fail | stop | issue => exact keeps.pass nofun

theorem Keeps.run (keeps : dispatch.Keeps issued) (steps : List ConnectionStep) :
    (dispatch.run steps).Keeps (issued ++ ConnectionStep.issued steps) := by
  induction steps generalizing dispatch issued with
  | nil => rwa [ConnectionStep.issued, List.filterMap_nil, List.append_nil]
  | cons step rest ih =>
    have later := ih (keeps.step step)
    rwa [List.append_assoc, ConnectionStep.issued, ConnectionStep.issued, ← List.filterMap_append] at later

end Dispatch

/-- Commands are issued and taken while streams come and go. They are sent in the order they were
issued, each once, and none is left behind without a call for it. -/
theorem commands_taken_in_turn (room name : String) (steps : List ConnectionStep) :
    let dispatch := Dispatch.run { heard := { connection := { room, name } } } steps
    let connection := dispatch.heard.connection
    (∃ parts, List.Forall₂ Taking.Sends dispatch.takings parts ∧
      parts.flatten ++ connection.pending = ConnectionStep.issued steps) ∧
    (∀ taking ∈ dispatch.takings, (∀ num id, .header num id ∉ taking.before) → taking.requests = []) ∧
    connection.id = Frame.lastId? dispatch.frames ∧
    (connection.id ≠ none → connection.pending ≠ [] → .commandsWaiting ∈ dispatch.heard.events) := by
  intro dispatch connection
  have keeps : dispatch.Keeps (ConnectionStep.issued steps) := (Dispatch.keeps_start room name).run steps
  refine ⟨keeps.sent, ?_, keeps.known, keeps.called⟩
  intro taking member unheaded
  obtain ⟨parts, sends, -⟩ := keeps.sent
  obtain ⟨commands, sent⟩ := Taking.sends_each sends taking member
  rw [Taking.Sends, (Frame.lastId?_eq_none_iff taking.before).2 unheaded] at sent
  exact sent.1

end TileRoom
