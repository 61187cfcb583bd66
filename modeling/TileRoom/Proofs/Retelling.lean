import Mathlib.Data.List.Induction
import TileRoom.Proofs.Applying
import TileRoom.Proofs.Mirroring

/-! What a game shows of its players. Frames of three kinds write the record of a player, each a part
of its own, so a record holds what the last frame of each kind told. The player who shouts is the
last who was told to, until told to have stopped. -/

namespace TileRoom

namespace Frame

variable {frames : List Frame} {frame : Frame} {num : Nat}

def subject? : Frame → Option Nat
  | .playerName num _ | .player num _ _ | .shout num _ => some num
  | _ => none

def nameOf? (num : Nat) : Frame → Option String
  | .playerName subject name => if subject = num then some name else none
  | _ => none

def presenceOf? (num : Nat) : Frame → Option (Bool × Bool)
  | .player subject connected typing => if subject = num then some (connected, typing) else none
  | _ => none

def shoutOf? (num : Nat) : Frame → Option Bool
  | .shout subject shouting => if subject = num then some shouting else none
  | _ => none

theorem silent_of_subject (other : frame.subject? ≠ some num) :
    frame.nameOf? num = none ∧ frame.presenceOf? num = none ∧ frame.shoutOf? num = none := by
  cases frame with
  | playerName subject | player subject | shout subject =>
    have apart : subject ≠ num := fun same => other (congrArg some same)
    simp only [nameOf?, presenceOf?, shoutOf?, if_neg apart, and_self]
  | header | message | tile | finish | padding | unknown => exact ⟨rfl, rfl, rfl⟩

/-- A player was told to shout, and since then neither was anyone else nor the player to stop. -/
def Shouts (frames : List Frame) (num : Nat) : Prop :=
  ∃ before after, frames = before ++ .shout num true :: after ∧ (∀ other, .shout other true ∉ after) ∧
    .shout num false ∉ after

theorem not_shouts_header (self : Nat) (id : PersonId) (num : Nat) : ¬Shouts [.header self id] num := by
  rintro ⟨before, after, whole, -⟩
  have ends : [] ++ [.header self id] = before ++ .shout num true :: after := whole
  rcases split_concat ends with ⟨-, -, same⟩ | ⟨rest, -, earlier⟩
  · cases same
  · exact List.append_ne_nil_of_right_ne_nil before (List.cons_ne_nil _ rest) earlier.symm

theorem shouts_concat (frames : List Frame) (frame : Frame) (num : Nat) :
    Shouts (frames ++ [frame]) num ↔ frame = .shout num true ∨
      Shouts frames num ∧ (∀ other, frame ≠ .shout other true) ∧ frame ≠ .shout num false := by
  constructor
  · rintro ⟨before, after, whole, others, silent⟩
    rcases split_concat whole with ⟨-, -, same⟩ | ⟨rest, rfl, earlier⟩
    · exact Or.inl same.symm
    · simp only [List.mem_append, List.mem_singleton, not_or] at others silent
      exact Or.inr ⟨⟨before, rest, earlier, fun other => (others other).1, silent.1⟩,
        fun other same => (others other).2 same.symm, fun same => silent.2 same.symm⟩
  · rintro (rfl | ⟨⟨before, after, rfl, others, silent⟩, quiet, stays⟩)
    · exact ⟨frames, [], rfl, fun _ => List.not_mem_nil, List.not_mem_nil⟩
    · refine ⟨before, after ++ [frame], ?_, ?_, ?_⟩
      · rw [List.append_assoc, List.cons_append]
      · simp only [List.mem_append, List.mem_singleton, not_or]
        exact fun other => ⟨others other, fun same => quiet other same.symm⟩
      · simp only [List.mem_append, List.mem_singleton, not_or]
        exact ⟨silent, fun same => stays same.symm⟩

theorem shouts_concat_quiet (quiet : ∀ subject value, frame ≠ .shout subject value) :
    Shouts (frames ++ [frame]) num ↔ Shouts frames num := by
  rw [shouts_concat, or_iff_right (quiet num true), and_iff_left ⟨fun other => quiet other true, quiet num false⟩]

end Frame

namespace PlayerRecord

variable {record : PlayerRecord} {frames : List Frame} {frame : Frame} {num : Nat}

structure Retells (record : PlayerRecord) (frames : List Frame) (num : Nat) : Prop where
  name : record.name = Frame.last? (Frame.nameOf? num) frames
  connected : record.status.contains .connected = (Frame.last? (Frame.presenceOf? num) frames).any (·.1)
  typing : record.status.contains .typing = (Frame.last? (Frame.presenceOf? num) frames).any (·.2)
  shouting : record.status.contains .shouting = (Frame.last? (Frame.shoutOf? num) frames).any id

theorem retells_header (self : Nat) (id : PersonId) (num : Nat) : ({} : PlayerRecord).Retells [.header self id] num :=
  ⟨rfl, rfl, rfl, rfl⟩

theorem Retells.other (retells : record.Retells frames num) (other : frame.subject? ≠ some num) :
    record.Retells (frames ++ [frame]) num := by
  obtain ⟨name, presence, shout⟩ := Frame.silent_of_subject other
  constructor
  case name => rw [Frame.last?_concat_none frames name, retells.name]
  case connected => rw [Frame.last?_concat_none frames presence, retells.connected]
  case typing => rw [Frame.last?_concat_none frames presence, retells.typing]
  case shouting => rw [Frame.last?_concat_none frames shout, retells.shouting]

theorem Retells.named (retells : record.Retells frames num) (name : String) :
    { record with name := some name }.Retells (frames ++ [Frame.playerName num name]) num where
  name := (Frame.last?_concat_some frames (if_pos rfl)).symm
  connected := by rw [Frame.last?_concat_none frames rfl, retells.connected]
  typing := by rw [Frame.last?_concat_none frames rfl, retells.typing]
  shouting := by rw [Frame.last?_concat_none frames rfl, retells.shouting]

theorem Retells.told (retells : record.Retells frames num) (isConnected isTyping : Bool) :
    { record with status := (record.status.inter .shouting).union (.ofFrame isConnected isTyping) }.Retells
      (frames ++ [Frame.player num isConnected isTyping]) num := by
  obtain ⟨connected, typing, shouting⟩ := Status.contains_told record.status isConnected isTyping
  have presence : Frame.last? (Frame.presenceOf? num) (frames ++ [.player num isConnected isTyping]) =
      some (isConnected, isTyping) :=
    Frame.last?_concat_some frames (if_pos rfl)
  constructor
  case name => rw [Frame.last?_concat_none frames rfl, retells.name]
  case connected => rw [presence, connected]; rfl
  case typing => rw [presence, typing]; rfl
  case shouting => rw [Frame.last?_concat_none frames rfl, shouting, retells.shouting]

theorem Retells.shouted (retells : record.Retells frames num) (shouts : Bool) :
    { record with status := record.status.put .shouting shouts }.Retells (frames ++ [Frame.shout num shouts]) num := by
  obtain ⟨shouting, connected, typing⟩ := Status.contains_put_shouting record.status shouts
  have shout : Frame.last? (Frame.shoutOf? num) (frames ++ [.shout num shouts]) = some shouts :=
    Frame.last?_concat_some frames (if_pos rfl)
  constructor
  case name => rw [Frame.last?_concat_none frames rfl, retells.name]
  case connected => rw [Frame.last?_concat_none frames rfl, connected, retells.connected]
  case typing => rw [Frame.last?_concat_none frames rfl, typing, retells.typing]
  case shouting => rw [shout, shouting]; rfl

end PlayerRecord

theorem ShoutState.seen_iff (client : Nat) (shouter : Option Nat) :
    (seen (some client) shouter = .nobody ↔ shouter = none) ∧
      (seen (some client) shouter = .self ↔ shouter = some client) ∧
      (seen (some client) shouter = .other ↔ ∃ num ≠ client, shouter = some num) := by
  cases shouter with
  | none => simp [seen]
  | some num =>
    by_cases own : client = num
    · simp [seen, own]
    · simp [seen, own, Ne.symm own]

namespace View

variable {view : View} {frames : List Frame} {frame : Frame} {client : Nat}

/-- A view shows what some frames told of the players; the first of them told who the client is. -/
structure Retells (view : View) (frames : List Frame) (client : Nat) : Prop where
  self : view.self = some client
  count : view.players.length = visiblePlayers
  records : ∀ (num : Nat) (record : PlayerRecord), view.players[num]? = some record → record.Retells frames num
  shouter : ∀ num, view.shouter = some num ↔ Frame.Shouts frames num
  shout : view.shout = .seen (some client) view.shouter

theorem retells_header (client : Nat) (id : PersonId) :
    (({} : View).learn (.header client id)).Retells [.header client id] client where
  self := rfl
  count := rfl
  records num record found := by
    have blank : record = {} := List.eq_of_mem_replicate (List.mem_of_getElem? found)
    rw [blank]
    exact PlayerRecord.retells_header client id num
  shouter num := iff_of_false nofun (Frame.not_shouts_header client id num)
  shout := rfl

theorem Retells.pass (retells : view.Retells frames client) (nobody : frame.subject? = none) :
    view.Retells (frames ++ [frame]) client where
  self := retells.self
  count := retells.count
  records num record found := by
    apply (retells.records num record found).other
    rw [nobody]
    exact nofun
  shouter num := by
    rw [Frame.shouts_concat_quiet, retells.shouter]
    rintro subject value rfl
    cases nobody
  shout := retells.shout

theorem Retells.update (retells : view.Retells frames client) {subject : Nat} (about : frame.subject? = some subject)
    {f : PlayerRecord → PlayerRecord}
    (writes : ∀ record : PlayerRecord, record.Retells frames subject → (f record).Retells (frames ++ [frame]) subject)
    (num : Nat) (record : PlayerRecord) (found : (view.updatePlayer subject f).players[num]? = some record) :
    record.Retells (frames ++ [frame]) num := by
  rw [getElem?_updatePlayer] at found
  obtain ⟨old, there, rfl⟩ := Option.map_eq_some_iff.1 found
  have before := retells.records num old there
  by_cases here : subject = num
  · subst here
    simp only [if_true]
    exact writes old before
  · simp only [if_neg here]
    exact before.other fun same => here (Option.some.inj (about.symm.trans same))

theorem Retells.write (retells : view.Retells frames client) {subject : Nat} (about : frame.subject? = some subject)
    (quiet : ∀ num value, frame ≠ .shout num value) {f : PlayerRecord → PlayerRecord}
    (writes : ∀ record : PlayerRecord, record.Retells frames subject → (f record).Retells (frames ++ [frame]) subject) :
    (view.updatePlayer subject f).Retells (frames ++ [frame]) client where
  self := retells.self
  count := (List.length_modify ..).trans retells.count
  records := retells.update about writes
  shouter num := (retells.shouter num).trans (Frame.shouts_concat_quiet quiet).symm
  shout := retells.shout

theorem Retells.setShouting (retells : view.Retells frames client) (num : Nat) (value : Bool) :
    (view.setShouting num value).Retells (frames ++ [.shout num value]) client := by
  obtain ⟨self, -, shouter, shout, players⟩ := setShouting_fields view num value
  constructor
  case self => rw [self, retells.self]
  case count =>
    rw [players]
    exact (List.length_modify ..).trans retells.count
  case records =>
    rw [players]
    exact retells.update rfl fun _ before => before.shouted value
  case shouter =>
    intro other
    rw [shouter, Frame.shouts_concat]
    cases value with
    | true =>
      have loud : ¬∀ player, Frame.shout num true ≠ .shout player true := fun quiet => quiet num rfl
      simp only [if_true, Option.some.injEq, Frame.shout.injEq, and_true, loud, false_and, and_false, or_false]
    | false =>
      rw [← retells.shouter]
      by_cases own : view.shouter = some num
      · simp [own]
      · have apart (same : view.shouter = some other) : num ≠ other := fun here => own (here ▸ same)
        simp only [Bool.false_eq_true, if_false, if_neg own, Frame.shout.injEq, and_false, false_or, ne_eq,
          not_false_eq_true, implies_true, true_and, and_true]
        exact (and_iff_left_of_imp apart).symm
  case shout =>
    rw [shout, shouter, retells.self]
    cases value with
    | true => rfl
    | false =>
      by_cases own : view.shouter = some num
      · simp only [Bool.false_eq_true, if_false, if_pos own]
        rfl
      · simp only [Bool.false_eq_true, if_false, if_neg own, retells.shout]

theorem Retells.learn (retells : view.Retells frames client) {frame : Frame}
    (constant : ∀ num id, frame = .header num id → num = client) : (view.learn frame).Retells (frames ++ [frame]) client := by
  cases frame with
  | header num id =>
    obtain rfl := constant num id rfl
    exact { retells.pass rfl with self := rfl }
  | playerName num name => exact retells.write rfl (fun _ _ => Frame.noConfusion) fun _ before => before.named name
  | player num isConnected isTyping =>
    exact retells.write rfl (fun _ _ => Frame.noConfusion) fun _ before => before.told isConnected isTyping
  | shout num value => exact retells.setShouting num value
  | tile num x y letter lastPlayer =>
    have passed : view.Retells (frames ++ [.tile num x y letter lastPlayer]) client := retells.pass rfl
    rw [View.learn, setTile]
    split
    · exact { passed with }
    · exact passed
  | message | finish | padding | unknown => exact retells.pass rfl

theorem retells_foldl (client : Nat) (id : PersonId) {rest : List Frame}
    (constant : ∀ num other, .header num other ∈ rest → num = client) :
    ((Frame.header client id :: rest).foldl View.learn {}).Retells (.header client id :: rest) client := by
  induction rest using List.reverseRecOn with
  | nil => exact retells_header client id
  | append_singleton rest frame ih =>
    have before := ih fun num other member => constant num other (List.mem_append_left _ member)
    rw [← List.cons_append, List.foldl_append]
    apply before.learn
    rintro num other rfl
    exact constant num other (List.mem_append_right _ List.mem_cons_self)

theorem Retells.players_beyond (retells : view.Retells frames client) {subject : Nat} (about : frame.subject? = some subject)
    (beyond : visiblePlayers ≤ subject) : (view.learn frame).players = view.players := by
  have unmoved (f : PlayerRecord → PlayerRecord) : (view.updatePlayer subject f).players = view.players := by
    apply List.modify_eq_self
    rwa [retells.count]
  cases frame with
  | playerName num name =>
    cases about
    exact unmoved _
  | player num isConnected isTyping =>
    cases about
    exact unmoved _
  | shout num value =>
    cases about
    rw [View.learn, (setShouting_fields view subject value).2.2.2.2]
    exact unmoved _
  | header | message | tile | finish | padding | unknown => cases about

end View

namespace Session

variable {label : Type} {session : Session label} {frames : List Frame}

def heed (session : Session label) (frames : List Frame) : Session label :=
  (session.hear (frames.foldl Heard.handle { connection := session.connection })).flush.after

def heedAll (session : Session label) (batches : List (List Frame)) : Session label :=
  batches.foldl heed session

structure Heeds (session : Session label) (frames : List Frame) : Prop where
  applies : ∃ heard, session.Applies {} heard ∧ heard.foldl View.see {} = frames.foldl View.learn {}
  shown : ∃ game, session.game = some game ∧ game.model.view = frames.foldl View.learn {}

theorem heeds_start (connection : Connection) (subscribers : Signal label) :
    Session.Heeds { connection, game := some { subscribers } } [] where
  applies := ⟨[], ⟨⟨{ subscribers }, [], [], rfl, rfl, rfl, rfl, fun none => absurd rfl none, nofun⟩⟩, rfl⟩
  shown := ⟨_, rfl, Model.view_nothing⟩

theorem Heeds.heed (heeds : session.Heeds frames) (more : List Frame) : (session.heed more).Heeds (frames ++ more) := by
  obtain ⟨heard, applies, seen⟩ := heeds.applies
  obtain ⟨news, events, reads⟩ := Heard.foldl_handle_spec more { connection := session.connection }
  have told := applies.hear (more.foldl Heard.handle { connection := session.connection })
  rw [events, List.nil_append] at told
  obtain ⟨later, -, game, there, model⟩ := told.flush
  have whole : (heard ++ news).foldl View.see {} = (frames ++ more).foldl View.learn {} := by
    rw [List.foldl_append, List.foldl_append, seen, reads.view]
  refine ⟨⟨heard ++ news, later, whole⟩, game, there, ?_⟩
  rw [model, view_of_public _ _ TileArena.sound_empty, Model.view_nothing, whole]

theorem Heeds.heedAll (heeds : session.Heeds frames) (batches : List (List Frame)) :
    (session.heedAll batches).Heeds (frames ++ batches.flatten) := by
  induction batches generalizing session frames with
  | nil => rwa [List.flatten_nil, List.append_nil]
  | cons batch rest ih =>
    rw [List.flatten_cons, ← List.append_assoc]
    exact ih (heeds.heed batch)

end Session

/-- Frames are handled and flushed in batches of any size, a header first. -/
theorem last_frames_shown {label : Type} (connection : Connection) (subscribers : Signal label)
    {batches : List (List Frame)} {client : Nat} {id : PersonId} {rest : List Frame}
    (greeted : batches.flatten = .header client id :: rest)
    (constant : ∀ num other, .header num other ∈ rest → num = client) :
    let session : Session label := { connection, game := some { subscribers } }
    let frames := batches.flatten
    ∃ game, (session.heedAll batches).game = some game ∧ game.model.self = some client ∧
      (∀ num < visiblePlayers, ∃ record, game.model.player? num = some record ∧ record.Retells frames num) ∧
      (∀ num, game.model.shouter = some num ↔ Frame.Shouts frames num) ∧
      (game.model.shout = .nobody ↔ game.model.shouter = none) ∧
      (game.model.shout = .self ↔ game.model.shouter = some client) ∧
      (game.model.shout = .other ↔ ∃ num ≠ client, game.model.shouter = some num) ∧
      ∀ frame subject, frame.subject? = some subject → visiblePlayers ≤ subject →
        ∃ after, (session.heedAll (batches ++ [[frame]])).game = some after ∧
          after.model.players = game.model.players := by
  intro session frames
  have start := Session.heeds_start connection subscribers
  obtain ⟨game, there, shown⟩ := (start.heedAll batches).shown
  have retells : game.model.view.Retells frames client := by
    rw [shown, List.nil_append]
    dsimp only [frames]
    rw [greeted]
    exact View.retells_foldl client id constant
  have shout : game.model.shout = .seen (some client) game.model.shouter := retells.shout
  obtain ⟨nobody, own, others⟩ := ShoutState.seen_iff client game.model.shouter
  refine ⟨game, there, retells.self, ?_, retells.shouter, ?_, ?_, ?_, ?_⟩
  · intro num visible
    have inside : num < game.model.players.length := Nat.lt_of_lt_of_eq visible retells.count.symm
    have found := List.getElem?_eq_getElem inside
    exact ⟨_, found, retells.records num _ found⟩
  · rw [shout, nobody]
  · rw [shout, own]
  · rw [shout, others]
  · intro frame subject about beyond
    obtain ⟨after, found, later⟩ := (start.heedAll (batches ++ [[frame]])).shown
    refine ⟨after, found, ?_⟩
    have learnt : after.model.view = game.model.view.learn frame := by
      rw [later, shown, List.flatten_append, List.flatten_singleton, ← List.append_assoc, List.foldl_append]
      rfl
    have same := congrArg View.players learnt
    rw [retells.players_beyond about beyond] at same
    exact same

/-- The second of two players who shout at a time is shown, although the first one stops. -/
theorem last_frames_shown_overlapping :
    let batches := [[.header 0 7, .shout 1 true, .player 1 true false], [],
      [.shout 2 true, .shout 1 false, .playerName 2 "bo"], [.player 2 true true, .header 0 7]]
    let session : Session Nat := { connection := { room := "lobby", name := "ann" }, game := some {} }
    (batches.flatten = .header 0 7 :: batches.flatten.tail ∧
      ∀ num other, .header num other ∈ batches.flatten.tail → num = 0) ∧
      ∃ game, (session.heedAll batches).game = some game ∧ game.model.shouter = some 2 ∧
        game.model.shout = .other ∧
        (∃ record, game.model.player? 1 = some record ∧ record.status.contains .connected = true ∧
          record.status.contains .shouting = false) ∧
        ∃ record, game.model.player? 2 = some record ∧ record.name = some "bo" ∧
          record.status.contains .typing = true ∧ record.status.contains .shouting = true := by
  intro batches session
  have constant : ∀ num other, .header num other ∈ batches.flatten.tail → num = 0 := by simp [batches]
  refine ⟨⟨rfl, constant⟩, ?_⟩
  obtain ⟨game, there, -, records, shouter, -, -, others, -⟩ :=
    @last_frames_shown Nat { room := "lobby", name := "ann" } {} batches 0 7 _ rfl constant
  obtain ⟨first, found, one⟩ := records 1 (by decide)
  obtain ⟨second, known, two⟩ := records 2 (by decide)
  have shouts : game.model.shouter = some 2 := by
    rw [shouter]
    exact ⟨_, [.shout 1 false, .playerName 2 "bo", .player 2 true true, .header 0 7], rfl, by simp, by simp⟩
  refine ⟨game, there, shouts, others.2 ⟨2, by decide, shouts⟩, ⟨first, found, ?_, ?_⟩, ⟨second, known, ?_, ?_, ?_⟩⟩
  · rw [one.connected]
    rfl
  · rw [one.shouting]
    rfl
  · rw [two.name]
    rfl
  · rw [two.typing]
    rfl
  · rw [two.shouting]
    rfl

end TileRoom
