import TileRoom.Proofs.Flushing
import TileRoom.Proofs.Sighting
import TileRoom.Proofs.StreamCuts
import TileRoom.Proofs.Timekeeping

/-! A game at play. Its connection reads, its player issues commands and its main thread applies
what was heard, one step of any of them after the other. The clock counts what was applied and the
turns of the player, the tiles are those that were told of, and an event says that a tile is new
when the game does not have the tile yet, although the connection said so long before. -/

namespace TileRoom

namespace Threads

variable {label : Type}

def withModel (threads : Threads label) (model : Model) : Threads label :=
  { threads with session := threads.session.updateGame ({ · with model }) }

def next? (threads : Threads label) : Option Event :=
  match threads.phase with
  | .applying => threads.session.game.bind fun game => game.queue.batch.head?.bind EventSlot.event
  | .free | .delivering _ => none

theorem next?_withModel (threads : Threads label) (model : Model) : (threads.withModel model).next? = threads.next? := by
  obtain ⟨⟨connection, idle, game⟩, taken, phase, applied, delivered, heard⟩ := threads
  cases game <;> rfl

theorem emit_withModel (threads : Threads label) (model : Model) (event : Event) :
    (threads.withModel model).step (.emit event) = (threads.step (.emit event)).withModel model := by
  obtain ⟨⟨connection, idle, game⟩, taken, phase, applied, delivered, heard⟩ := threads
  cases game with
  | none => rfl
  | some game =>
    simp only [step, withModel, Session.updateGame, Session.offer, Option.map_some]
    cases event.isPublic with
    | false => rfl
    | true => cases token : (game.queue.push event).flushToken <;> simp only [if_true, Option.map_some]

theorem advance_spec (threads : Threads label) (model : Model) :
    (threads.withModel model).advance = threads.advance.withModel (threads.next?.toList.foldl Model.apply model) ∧
      threads.advance.applied = threads.applied ++ threads.next?.toList ∧
      threads.advance.session.connection = threads.session.connection := by
  obtain ⟨⟨connection, idle, game⟩, taken, phase, applied, delivered, heard⟩ := threads
  cases phase with
  | free =>
    cases taken with
    | nil => exact ⟨rfl, (List.append_nil _).symm, rfl⟩
    | cons entry rest =>
      cases entry with
      | mk token task => cases task <;> cases game <;> exact ⟨rfl, (List.append_nil _).symm, rfl⟩
  | applying =>
    cases game with
    | none => exact ⟨rfl, (List.append_nil _).symm, rfl⟩
    | some game =>
      obtain ⟨known, ⟨pending, freed, batch, spent, flushToken, allocated⟩, subscribers⟩ := game
      cases batch with
      | nil => exact ⟨rfl, (List.append_nil _).symm, rfl⟩
      | cons slot rest =>
        cases slot with
        | mk event =>
          cases event with
          | none => exact ⟨rfl, (List.append_nil _).symm, rfl⟩
          | some event => exact ⟨rfl, rfl, rfl⟩
  | delivering event => cases game <;> exact ⟨rfl, (List.append_nil _).symm, rfl⟩

def reconnect (threads : Threads label) (connection : Connection) : Threads label :=
  { threads with session := { threads.session with connection } }

theorem Orderly.reconnect {subscribers : Signal label} {emitted : List Event} {threads : Threads label}
    {game : Game label} (orderly : Orderly subscribers emitted threads game) (connection : Connection) :
    Orderly subscribers emitted (threads.reconnect connection) game :=
  { orderly with there := orderly.there }

end Threads

/-- A session at play, and all that let the clock of its game go on. -/
structure Play (label : Type) where
  threads : Threads label
  /-- The events that the connection told of and that did not reach the game. -/
  coming : List Event := []
  past : List Moment := []

inductive PlayStep where
  | connect (step : ConnectionStep)
  | issue (command : Command)
  | tell
  | queue
  | advance

def PlayStep.turns (steps : List PlayStep) : Nat :=
  steps.countP fun
    | .issue command => Session.countsAsTurn command
    | _ => false

def Moment.event? : Moment → Option Event
  | .applied event => some event
  | .turn => none

namespace Play

variable {label : Type}

def start (connection : Connection) (subscribers : Signal label) : Play label :=
  { threads := .start connection subscribers }

def connect (play : Play label) (step : ConnectionStep) : Play label :=
  let heard := play.threads.session.connection.step step
  { play with
    threads := play.threads.reconnect heard.connection
    coming := play.coming ++ heard.events }

def turn (play : Play label) : Play label :=
  { play with
    threads := { play.threads with
      session := play.threads.session.updateGame fun game => { game with model := game.model.tick } }
    past := play.past ++ [.turn] }

def tell (play : Play label) : Play label :=
  match play.coming with
  | [] => play
  | event :: coming => { play with threads := play.threads.step (.emit event), coming }

def step (play : Play label) : PlayStep → Play label
  | .connect step => play.connect step
  | .issue command => (if Session.countsAsTurn command then play.turn else play).connect (.issue command)
  | .tell => play.tell
  | .queue => { play with threads := play.threads.step .queue }
  | .advance =>
      { play with
        threads := play.threads.advance
        past := play.past ++ play.threads.next?.toList.map .applied }

def run (play : Play label) (steps : List PlayStep) : Play label :=
  steps.foldl step play

theorem tell_all (play : Play label) :
    (play.run (List.replicate play.coming.length .tell)).threads.session =
      play.coming.foldl Session.offer play.threads.session := by
  generalize waiting : play.coming = coming
  induction coming generalizing play with
  | nil => rfl
  | cons event rest ih =>
    have told : play.step .tell = { play with threads := play.threads.step (.emit event), coming := rest } := by
      rw [step, tell, waiting]
    have later := ih (play.step .tell) (by rw [told])
    rw [told] at later
    rw [List.length_cons, List.replicate_succ, run, List.foldl_cons, told]
    exact later

/-- A session that hears of something at once lets its connection go on and then tells the game. -/
theorem hear_at_once (play : Play label) (step : ConnectionStep) (none : play.coming = []) :
    ∃ count, (play.run (.connect step :: List.replicate count .tell)).threads.session =
      play.threads.session.hear (play.threads.session.connection.step step) := by
  have told := (play.connect step).tell_all
  refine ⟨(play.connect step).coming.length, told.trans ?_⟩
  rw [connect, none, List.nil_append]
  rfl

theorem command_at_once (play : Play label) (command : Command) (none : play.coming = []) :
    ∃ count, (play.run (.issue command :: List.replicate count .tell)).threads.session =
      play.threads.session.command command := by
  let begun := if Session.countsAsTurn command then play.turn else play
  have none : begun.coming = [] := by
    dsimp only [begun]
    split <;> exact none
  obtain ⟨count, told⟩ := begun.hear_at_once (.issue command) none
  refine ⟨count, told.trans ?_⟩
  dsimp only [begun]
  rw [Session.command]
  split <;> rfl

/-- What holds between any two steps of a game, after some turns of the player. The main thread would
do the same without these turns, and only the model tells of them. -/
structure Keeps (subscribers : Signal label) (turns : Nat) (play : Play label) : Prop where
  still : ∃ bare game told, Threads.Orderly subscribers (List.filter Event.isPublic told) bare game ∧
    play.threads = bare.withModel (Model.ofPast play.past) ∧
    Heard.Sights { connection := bare.session.connection, events := told ++ play.coming }
  applied : play.past.filterMap Moment.event? = play.threads.applied
  length : play.past.length = play.threads.applied.length + turns

variable {subscribers : Signal label} {turns : Nat} {play : Play label}

theorem keeps_start {connection : Connection} (sights : Heard.Sights { connection }) :
    (start connection subscribers).Keeps subscribers 0 where
  still := ⟨_, _, [], Threads.orderly_start connection subscribers, rfl, sights⟩
  applied := rfl
  length := rfl

theorem Keeps.connect (keeps : play.Keeps subscribers turns) (step : ConnectionStep) :
    (play.connect step).Keeps subscribers turns := by
  obtain ⟨bare, game, told, orderly, same, sights⟩ := keeps.still
  have held : play.threads.session.connection = bare.session.connection := by
    rw [same]
    rfl
  refine ⟨⟨_, game, told, orderly.reconnect (bare.session.connection.step step).connection, ?_, ?_⟩, keeps.applied,
    keeps.length⟩
  · rw [Play.connect, held, same]
    rfl
  · have later := sights.after step
    rw [Heard.after, List.append_assoc] at later
    rw [Play.connect, held]
    exact later

theorem Keeps.turn (keeps : play.Keeps subscribers turns) : play.turn.Keeps subscribers (turns + 1) := by
  obtain ⟨bare, game, told, orderly, same, sights⟩ := keeps.still
  refine ⟨⟨bare, game, told, orderly, ?_, sights⟩, ?_, ?_⟩
  · rw [Play.turn, Model.ofPast_concat, same]
    simp only [Threads.withModel, Session.updateGame, Option.map_map]
    rfl
  · rw [Play.turn, List.filterMap_append, keeps.applied]
    exact List.append_nil _
  · rw [Play.turn, List.length_append, keeps.length]
    rfl

theorem Keeps.tell (keeps : play.Keeps subscribers turns) : play.tell.Keeps subscribers turns := by
  cases coming : play.coming with
  | nil =>
    rw [Play.tell, coming]
    exact keeps
  | cons event rest =>
    obtain ⟨bare, game, told, orderly, same, sights⟩ := keeps.still
    obtain ⟨after, emitted⟩ := orderly.emit event
    have held : (bare.step (.emit event)).session.connection = bare.session.connection :=
      Session.connection_foldl_offer [event] bare.session
    rw [← List.filter_append] at emitted
    rw [Play.tell, coming]
    refine ⟨⟨_, after, told ++ [event], emitted, ?_, ?_⟩, keeps.applied, keeps.length⟩
    · dsimp only
      rw [same, Threads.emit_withModel]
    · rwa [held, List.append_assoc, List.singleton_append, ← coming]

theorem Keeps.queue (keeps : play.Keeps subscribers turns) : (play.step .queue).Keeps subscribers turns := by
  obtain ⟨bare, game, told, orderly, same, sights⟩ := keeps.still
  refine ⟨⟨_, game, told, orderly.queue, ?_, sights⟩, keeps.applied, keeps.length⟩
  rw [Play.step, same]
  rfl

theorem Keeps.advance (keeps : play.Keeps subscribers turns) : (play.step .advance).Keeps subscribers turns := by
  obtain ⟨bare, game, told, orderly, same, sights⟩ := keeps.still
  obtain ⟨after, advanced, -⟩ := orderly.advance
  have next : play.threads.next? = bare.next? := by
    rw [same, Threads.next?_withModel]
  have applied := (play.threads.advance_spec (Model.ofPast play.past)).2.1
  have events : (play.threads.next?.toList.map Moment.applied).filterMap Moment.event? = play.threads.next?.toList := by
    cases play.threads.next? <;> rfl
  have lived : Model.ofPast (play.past ++ play.threads.next?.toList.map .applied) =
      play.threads.next?.toList.foldl Model.apply (Model.ofPast play.past) := by
    cases play.threads.next? with
    | none => exact congrArg Model.ofPast (List.append_nil _)
    | some event => exact Model.ofPast_concat _ _
  obtain ⟨alike, -, held⟩ := bare.advance_spec (Model.ofPast play.past)
  refine ⟨⟨_, after, told, advanced, ?_, ?_⟩, ?_, ?_⟩
  · rw [Play.step, lived, next, same, alike]
  · rwa [held]
  · rw [Play.step, applied, List.filterMap_append, keeps.applied, events]
  · rw [Play.step, applied, List.length_append, List.length_append, List.length_map, keeps.length,
      Nat.add_right_comm]

theorem Keeps.step (keeps : play.Keeps subscribers turns) (step : PlayStep) :
    (play.step step).Keeps subscribers (turns + PlayStep.turns [step]) := by
  cases step with
  | connect step => exact keeps.connect step
  | issue command =>
    rw [PlayStep.turns, List.countP_singleton, Play.step]
    by_cases counts : Session.countsAsTurn command = true
    · rw [if_pos counts, if_pos counts]
      exact keeps.turn.connect _
    · rw [if_neg counts, if_neg counts]
      exact keeps.connect _
  | tell => exact keeps.tell
  | queue => exact keeps.queue
  | advance => exact keeps.advance

theorem Keeps.run (keeps : play.Keeps subscribers turns) (steps : List PlayStep) :
    (play.run steps).Keeps subscribers (turns + PlayStep.turns steps) := by
  induction steps generalizing play turns with
  | nil => exact keeps
  | cons step rest ih =>
    have later := ih (keeps.step step)
    rwa [Nat.add_assoc, PlayStep.turns, PlayStep.turns, ← List.countP_append] at later

theorem Keeps.isNew_iff (keeps : play.Keeps subscribers turns) {before after : List Moment} {num : Nat} {x y : Int32}
    {letter : Char} {lastPlayer : Option Nat} {isNew : Bool}
    (whole : play.past = before ++ .applied (.tile num x y letter lastPlayer isNew) :: after) :
    isNew = true ↔ (Model.ofPast before).tiles.get? num = none := by
  obtain ⟨bare, game, told, orderly, same, sights⟩ := keeps.still
  have applied : before.filterMap Moment.event? ++ .tile num x y letter lastPlayer isNew :: after.filterMap Moment.event? =
      bare.applied := by
    have split := keeps.applied
    rw [whole, List.filterMap_append, same] at split
    exact split
  have first : bare.applied <+: told.filter Event.isPublic := ⟨_, orderly.order.symm⟩
  have flagged : Event.AllFlagged bare.applied :=
    ((sights.flagged.front (List.prefix_append _ _)).filter).front first
  obtain ⟨inside, isNew_iff⟩ := flagged _ _ _ applied.symm
  rw [isNew_iff, Model.get?_eq_none_iff inside]
  constructor
  · intro absent moment member tells
    cases moment with
    | turn => exact tells
    | applied event => exact absent event (List.mem_filterMap.2 ⟨_, member, rfl⟩) tells
  · intro absent event member tells
    obtain ⟨moment, there, some⟩ := List.mem_filterMap.1 member
    cases moment with
    | turn => cases some
    | applied other =>
      cases some
      exact absent _ there tells

end Play

/-- A game is attached to a connection that read nothing yet, and streams come and go while the main
thread applies what was heard and the player issues commands. -/
theorem tiles_keep_time {label : Type} (room name : String) (subscribers : Signal label)
    {early : List ConnectionStep} (unread : ∀ data, .receive data ∉ early) (steps : List PlayStep) :
    let connection := (Heard.run { connection := { room, name } } early).connection
    let play := (Play.start connection subscribers).run steps
    ∃ game, play.threads.session.game = some game ∧ game.model = Model.ofPast play.past ∧
      play.past.filterMap Moment.event? = play.threads.applied ∧
      game.model.clock = play.threads.applied.length + PlayStep.turns steps ∧
      (∀ num tile, game.model.tiles.get? num = some tile ↔ num < 128 ∧ Moment.Tells play.past num tile) ∧
      (∀ num tile, (num, tile) ∈ game.model.tiles.toList ↔ game.model.tiles.get? num = some tile) ∧
      (game.model.tiles.toList.Pairwise fun first second => first.2.updatedAt < second.2.updatedAt) ∧
      (∀ entry ∈ game.model.tiles.toList, entry.2.updatedAt ≤ game.model.clock) ∧
      ∀ before num x y letter lastPlayer isNew after,
        play.past = before ++ .applied (.tile num x y letter lastPlayer isNew) :: after →
          (isNew = true ↔ (Model.ofPast before).tiles.get? num = none) := by
  intro connection play
  have keeps : play.Keeps subscribers (PlayStep.turns steps) := by
    have start : (Play.start connection subscribers).Keeps subscribers 0 :=
      Play.keeps_start (Heard.sights_unread room name unread)
    have later := start.run steps
    rwa [Nat.zero_add] at later
  obtain ⟨bare, game, told, orderly, same, -⟩ := keeps.still
  have tiles := Model.keeps_ofPast play.past
  obtain ⟨touched, arranged⟩ := tiles.arranged
  refine ⟨{ game with model := Model.ofPast play.past }, ?_, rfl, keeps.applied, ?_, tiles.told, arranged.mem_toList_iff,
    tiles.sorted, tiles.early, ?_⟩
  · rw [same, Threads.withModel, Session.updateGame, orderly.there]
    rfl
  · rw [Model.clock_ofPast, keeps.length]
  · intro before num x y letter lastPlayer isNew after whole
    exact keeps.isNew_iff whole

def relaying : Bytes :=
  Chunk.frame (Frame.tile 3 1 2 'A' none).payload ++ Chunk.frame (Frame.tile 3 4 5 'A' (some 0)).payload

/-- The player moves a tile while the main thread is in the middle of what was heard of it. -/
theorem tiles_keep_time_relaid :
    let early := [.begin "key", .issue .shout]
    let steps := [.connect (.receive Connection.greeting), .connect (.receive relaying)] ++ List.replicate 5 .tell ++
      List.replicate 7 .advance ++ [.issue (.move 3 4 5)] ++ List.replicate 2 .advance
    let connection := (Heard.run { connection := { room := "lobby", name := "ann" } } early).connection
    let play := (Play.start connection (.empty : Signal Nat)).run steps
    (∀ data, .receive data ∉ early) ∧
      play.past = [.applied (.header 0), .applied .phaseChanged, .applied (.tile 3 1 2 'A' none true), .turn,
        .applied (.tile 3 4 5 'A' (some 0) false)] ∧
      ∃ game, play.threads.session.game = some game ∧ game.model.clock = 5 ∧
        game.model.tiles.get? 3 = some ⟨4, 5, 'A', 5, true⟩ := by
  intro early steps connection play
  have unread : ∀ data, .receive data ∉ early := by simp [early]
  have past : play.past = [.applied (.header 0), .applied .phaseChanged, .applied (.tile 3 1 2 'A' none true), .turn,
      .applied (.tile 3 4 5 'A' (some 0) false)] := by
    decide +kernel
  unfold play connection at *
  refine ⟨unread, past, ?_⟩
  obtain ⟨game, there, -, applied, clock, told, -⟩ := tiles_keep_time "lobby" "ann" (.empty : Signal Nat) unread steps
  refine ⟨game, there, ?_, ?_⟩
  · rw [clock, ← applied, past]
    rfl
  · let before : List Moment :=
      [.applied (.header 0), .applied .phaseChanged, .applied (.tile 3 1 2 'A' none true), .turn]
    have last : ((Model.ofPast before).seen 4 5 'A' (some 0)) = ⟨4, 5, 'A', 5, true⟩ := by decide +kernel
    exact (told 3 _).2 ⟨by decide, before, 4, 5, 'A', some 0, false, [], past, List.forall_mem_nil _, last.symm⟩

end TileRoom
