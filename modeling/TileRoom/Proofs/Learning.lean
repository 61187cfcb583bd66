import TileRoom.Client.Connection
import TileRoom.Client.Model
import TileRoom.Conversation.Basic
import TileRoom.Proofs.Arena

/-! What a client learns from the frames it reads. A view is what a client's model says
about its room, without the clock and the order in which tiles were touched. -/

namespace TileRoom

theorem split_concat {α : Type} {items before after : List α} {last item : α}
    (same : items ++ [last] = before ++ item :: after) :
    after = [] ∧ before = items ∧ item = last ∨ ∃ rest, after = rest ++ [last] ∧ items = before ++ item :: rest := by
  rcases List.eq_nil_or_concat after with rfl | ⟨rest, final, rfl⟩
  · obtain ⟨rfl, ends⟩ := List.append_inj' same rfl
    exact Or.inl ⟨rfl, rfl, (List.singleton_inj.1 ends).symm⟩
  · right
    rw [List.concat_eq_append, ← List.cons_append, ← List.append_assoc] at same
    obtain ⟨whole, ends⟩ := List.append_inj' same rfl
    exact ⟨rest, by rw [List.concat_eq_append, ends], whole⟩

structure LaidTile where
  x : Int32
  y : Int32
  letter : Char
  movedBySelf : Bool
deriving DecidableEq

def SeenTile.laid (tile : SeenTile) : LaidTile :=
  ⟨tile.x, tile.y, tile.letter, tile.movedBySelf⟩

structure View where
  self : Option Nat := none
  players : List PlayerRecord := List.replicate visiblePlayers {}
  shout : ShoutState := .nobody
  shouter : Option Nat := none
  tile? : Nat → Option LaidTile := fun _ => none

namespace View

def updatePlayer (view : View) (num : Nat) (f : PlayerRecord → PlayerRecord) : View :=
  { view with players := view.players.modify num f }

def setShouting (view : View) (num : Nat) (shouting : Bool) : View :=
  let view := view.updatePlayer num fun record =>
    { record with status := record.status.put .shouting shouting }
  if shouting then
    { view with shouter := some num, shout := if view.self = some num then .self else .other }
  else if view.shouter = some num then { view with shouter := none, shout := .nobody }
  else view

def setTile (view : View) (num : Nat) (tile : LaidTile) : View :=
  if num < 128 then
    { view with tile? := fun other => if other = num then some tile else view.tile? other }
  else view

def see (view : View) : Event → View
  | .header num => { view with self := some num }
  | .name num name => view.updatePlayer num ({ · with name := some name })
  | .status num status => view.updatePlayer num fun record =>
      { record with status := (record.status.inter .shouting).union status }
  | .shouting num value => view.setShouting num value
  | .tile num x y letter lastPlayer _ =>
      view.setTile num ⟨x, y, letter, lastPlayer.isSome && lastPlayer = view.self⟩
  | .message .. | .failure _ | .running _ | .phaseChanged | .commandsWaiting => view

def learn (view : View) : Frame → View
  | .header num _ => { view with self := some num }
  | .playerName num name => view.updatePlayer num ({ · with name := some name })
  | .player num connected typing => view.updatePlayer num fun record =>
      { record with status := (record.status.inter .shouting).union (.ofFrame connected typing) }
  | .shout num shouting => view.setShouting num shouting
  | .tile num x y letter lastPlayer =>
      view.setTile num ⟨x, y, letter, lastPlayer.isSome && lastPlayer = view.self⟩
  | .message .. | .finish | .padding | .unknown _ => view

end View

namespace Model

def view (model : Model) : View :=
  ⟨model.self, model.players, model.shout, model.shouter, fun num => (model.tiles.get? num).map (·.laid)⟩

theorem laid_place {arena : TileArena} (sound : arena.Sound) (number : Nat) (tile : SeenTile) :
    (fun other => ((((arena.insert number).update number fun _ => tile).touch number).get? other).map
        (·.laid)) =
      fun other => if other = number then some tile.laid else (arena.get? other).map (·.laid) := by
  funext other
  rw [(TileArena.place_spec sound number tile).2]
  split <;> rfl

theorem view_apply {model : Model} (sound : model.tiles.Sound) (event : Event) :
    (model.apply event).tiles.Sound ∧ (model.apply event).view = model.view.see event := by
  cases event with
  | tile num x y letter lastPlayer isNew =>
    change (model.tick.setTile num x y letter lastPlayer).tiles.Sound ∧
      (model.tick.setTile num x y letter lastPlayer).view =
        model.view.setTile num ⟨x, y, letter, lastPlayer.isSome && lastPlayer = model.self⟩
    unfold setTile View.setTile
    by_cases inside : num < 128
    · rw [if_pos inside, if_pos inside]
      exact ⟨(TileArena.place_spec sound num _).1,
        congrArg (View.mk model.self model.players model.shout model.shouter)
          (laid_place sound num _)⟩
    · rw [if_neg inside, if_neg inside]
      exact ⟨sound, rfl⟩
  | shouting num value =>
    cases value with
    | true => exact ⟨sound, rfl⟩
    | false =>
      change (model.tick.setShouting num false).tiles.Sound ∧
        (model.tick.setShouting num false).view = model.view.setShouting num false
      by_cases shouter : model.shouter = some num
      · simp [setShouting, View.setShouting, updatePlayer, View.updatePlayer, tick, view, shouter, sound]
      · simp [setShouting, View.setShouting, updatePlayer, View.updatePlayer, tick, view, shouter, sound]
  | header | name | status | message | failure | running | phaseChanged | commandsWaiting =>
    exact ⟨sound, rfl⟩

theorem view_foldl (events : List Event) {model : Model} (sound : model.tiles.Sound) :
    (events.foldl apply model).tiles.Sound ∧
      (events.foldl apply model).view = events.foldl View.see model.view := by
  induction events generalizing model with
  | nil => exact ⟨sound, rfl⟩
  | cons event rest ih =>
    obtain ⟨kept, same⟩ := view_apply sound event
    obtain ⟨last, whole⟩ := ih kept
    exact ⟨last, by rw [List.foldl_cons, List.foldl_cons, whole, same]⟩

end Model

def Event.message? : Event → Option Message
  | .message player text => some ⟨player, text⟩
  | _ => none

def Event.tile? : Event → Option Nat
  | .tile num .. => some num
  | _ => none

def Frame.message? : Frame → Option Message
  | .message person text => some ⟨person, text⟩
  | _ => none

def Frame.header? : Frame → Option (Nat × PersonId)
  | .header num id => some (num, id)
  | _ => none

def Frame.last? {α : Type} (tells : Frame → Option α) (frames : List Frame) : Option α :=
  (frames.filterMap tells).getLast?

theorem Frame.last?_append {α : Type} (tells : Frame → Option α) (early late : List Frame) :
    last? tells (early ++ late) = (last? tells late).or (last? tells early) := by
  rw [last?, List.filterMap_append, List.getLast?_append]
  rfl

theorem Frame.last?_concat_some {α : Type} {tells : Frame → Option α} {frame : Frame} {value : α}
    (frames : List Frame) (told : tells frame = some value) : last? tells (frames ++ [frame]) = some value := by
  rw [last?_append, last?, List.filterMap_cons_some told]
  rfl

theorem Frame.last?_concat_none {α : Type} {tells : Frame → Option α} {frame : Frame} (frames : List Frame)
    (silent : tells frame = none) : last? tells (frames ++ [frame]) = last? tells frames := by
  rw [last?_append, last?, List.filterMap_cons_none silent]
  rfl

/-- What reading frames does to a connection and what is heard of it. -/
structure Reads (before : Connection) (frames : List Frame) (after : Connection) (news : List Event) :
    Prop where
  room : after.room = before.room ∧ after.name = before.name
  view : ∀ view : View, news.foldl View.see view = frames.foldl View.learn view
  messages : news.filterMap Event.message? = frames.filterMap Frame.message?
  count : after.nextMessage = before.nextMessage + (frames.filterMap Frame.message?).length
  person : after.id = frames.foldl (fun id frame => (frame.header?.map (·.2)).or id) before.id

namespace Heard

theorem setPhase_spec (heard : Heard) (phase : ConnectionPhase) :
    ∃ news, (heard.setPhase phase).events = heard.events ++ news ∧
      Reads heard.connection [] (heard.setPhase phase).connection news := by
  unfold setPhase
  split
  · exact ⟨[], (List.append_nil _).symm, ⟨rfl, rfl⟩, fun _ => rfl, rfl, rfl, rfl⟩
  · exact ⟨[.phaseChanged], rfl, ⟨rfl, rfl⟩, fun _ => rfl, rfl, rfl, rfl⟩

theorem setRunning_spec (heard : Heard) (running : Bool) :
    ∃ news, (heard.setRunning running).events = heard.events ++ news ∧
      Reads heard.connection [] (heard.setRunning running).connection news := by
  unfold setRunning
  split
  · exact ⟨[], (List.append_nil _).symm, ⟨rfl, rfl⟩, fun _ => rfl, rfl, rfl, rfl⟩
  · exact ⟨[.running running], rfl, ⟨rfl, rfl⟩, fun _ => rfl, rfl, rfl, rfl⟩

end Heard

theorem Reads.append {first second third : Connection} {early late : List Frame}
    {news more : List Event} (one : Reads first early second news) (two : Reads second late third more) :
    Reads first (early ++ late) third (news ++ more) where
  room := ⟨two.room.1.trans one.room.1, two.room.2.trans one.room.2⟩
  view view := by rw [List.foldl_append, List.foldl_append, one.view, two.view]
  messages := by rw [List.filterMap_append, List.filterMap_append, one.messages, two.messages]
  count := by rw [two.count, one.count, List.filterMap_append, List.length_append, Nat.add_assoc]
  person := by rw [two.person, one.person, List.foldl_append]

namespace Heard

theorem handle_spec (heard : Heard) (frame : Frame) :
    ∃ news, (heard.handle frame).events = heard.events ++ news ∧
      Reads heard.connection [frame] (heard.handle frame).connection news := by
  cases frame with
  | header num id =>
    have known : Reads heard.connection [.header num id]
        { heard.connection with id := some id, self := some num } [.header num] :=
      ⟨⟨rfl, rfl⟩, fun _ => rfl, rfl, rfl, rfl⟩
    obtain ⟨news, events, reads⟩ := setPhase_spec
      ((heard.quietly ({ · with id := some id, self := some num })).announce (.header num)) .inProgress
    have both := known.append reads
    change _ = heard.events ++ [.header num] ++ news at events
    rw [List.append_assoc] at events
    simp only [handle, handleHeader]
    split
    · exact ⟨.header num :: news, events, both⟩
    · refine ⟨.header num :: news ++ [.commandsWaiting], ?_, both.append
        (⟨⟨rfl, rfl⟩, fun _ => rfl, rfl, rfl, rfl⟩ : Reads _ [] _ [.commandsWaiting])⟩
      rw [announce, events, List.append_assoc]
      rfl
  | playerName num name =>
    exact ⟨[.name num name], rfl, ⟨rfl, rfl⟩, fun _ => rfl, rfl, rfl, rfl⟩
  | player num connected typing =>
    exact ⟨[.status num (.ofFrame connected typing)], rfl, ⟨rfl, rfl⟩, fun _ => rfl, rfl, rfl, rfl⟩
  | message person text =>
    exact ⟨[.message person text], rfl, ⟨rfl, rfl⟩, fun _ => rfl, rfl, rfl, rfl⟩
  | shout num shouting =>
    exact ⟨[.shouting num shouting], rfl, ⟨rfl, rfl⟩, fun _ => rfl, rfl, rfl, rfl⟩
  | tile num x y letter lastPlayer =>
    simp only [handle, handleTile]
    split
    · exact ⟨[.tile num x y letter lastPlayer _], rfl, ⟨rfl, rfl⟩, fun _ => rfl, rfl, rfl, rfl⟩
    · rename_i beyond
      refine ⟨[], (List.append_nil _).symm, ⟨rfl, rfl⟩, ?_, rfl, rfl, rfl⟩
      intro view
      simp only [List.foldl_cons, List.foldl_nil, View.learn, View.setTile, if_neg beyond]
  | finish =>
    obtain ⟨news, events, reads⟩ := setPhase_spec heard .done
    obtain ⟨more, later, others⟩ := setRunning_spec (heard.setPhase .done) false
    have both := reads.append others
    exact ⟨news ++ more, by rw [handle, later, events, List.append_assoc],
      ⟨both.room, both.view, both.messages, both.count, both.person⟩⟩
  | padding | unknown => exact ⟨[], (List.append_nil _).symm, ⟨rfl, rfl⟩, fun _ => rfl, rfl, rfl, rfl⟩

theorem foldl_handle_spec (frames : List Frame) (heard : Heard) :
    ∃ news, (frames.foldl handle heard).events = heard.events ++ news ∧
      Reads heard.connection frames (frames.foldl handle heard).connection news := by
  induction frames generalizing heard with
  | nil => exact ⟨[], (List.append_nil _).symm, ⟨rfl, rfl⟩, fun _ => rfl, rfl, rfl, rfl⟩
  | cons frame rest ih =>
    obtain ⟨news, events, reads⟩ := handle_spec heard frame
    obtain ⟨more, later, others⟩ := ih (heard.handle frame)
    exact ⟨news ++ more, by rw [List.foldl_cons, later, events, List.append_assoc], reads.append others⟩

theorem connection_setPhase (heard : Heard) (phase : ConnectionPhase) :
    (heard.setPhase phase).connection = { heard.connection with phase } := by
  unfold setPhase
  split
  next same => rw [← same]
  next => rfl

theorem connection_setRunning (heard : Heard) (running : Bool) :
    (heard.setRunning running).connection = { heard.connection with running } := by
  unfold setRunning
  split
  next same => rw [← same]
  next => rfl

theorem connection_handleHeader (heard : Heard) (num : Nat) (id : PersonId) :
    (heard.handleHeader num id).connection =
      { heard.connection with id := some id, self := some num, phase := .inProgress } := by
  simp only [handleHeader]
  split <;> exact connection_setPhase _ _

theorem handle_keeps (heard : Heard) (frame : Frame) :
    (heard.handle frame).connection.stream = heard.connection.stream ∧
      (heard.handle frame).connection.pending = heard.connection.pending := by
  cases frame with
  | header num id =>
    rw [handle, connection_handleHeader]
    exact ⟨rfl, rfl⟩
  | tile num x y letter lastPlayer =>
    simp only [handle, handleTile]
    split <;> exact ⟨rfl, rfl⟩
  | finish =>
    rw [handle, connection_setRunning, connection_setPhase]
    exact ⟨rfl, rfl⟩
  | playerName | player | message | shout | padding | unknown => exact ⟨rfl, rfl⟩

theorem foldl_handle_keeps (frames : List Frame) (heard : Heard) :
    (frames.foldl handle heard).connection.stream = heard.connection.stream ∧
      (frames.foldl handle heard).connection.pending = heard.connection.pending := by
  induction frames generalizing heard with
  | nil => exact ⟨rfl, rfl⟩
  | cons frame rest ih =>
    obtain ⟨stream, pending⟩ := heard.handle_keeps frame
    rw [List.foldl_cons, (ih _).1, (ih _).2]
    exact ⟨stream, pending⟩

end Heard

end TileRoom
