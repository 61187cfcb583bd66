import TileRoom.Proofs.Resting
import TileRoom.Proofs.RoomHistory

/-! A pass over the time limits. Persons who were silent too long leave, and then shouts that are
old enough end. Shouts are looked at in rooms that still have persons only, and that is enough:
whoever shouts is connected, and whoever is connected is a person. The order in which persons and
rooms are gone through makes no difference. -/

namespace TileRoom

def Player.departed (player : Player) : Player :=
  { player with connected := false, typing := false }

theorem Player.departed_eq {player : Player} (left : player.connected = false) (still : player.typing = false) :
    player.departed = player := by
  obtain ⟨num, name, connected, typing⟩ := player
  obtain rfl : connected = false := left
  obtain rfl : typing = false := still
  rfl

namespace Conversation

variable {room before middle after : Conversation}

/-- Whoever types or shouts is connected. -/
structure Tidy (room : Conversation) : Prop where
  typists : ∀ player ∈ room.players, player.typing = true → player.connected = true
  shouting : ∀ player, room.shouter? = some player → room.isConnected player = true

theorem tidy_ofBag (bag : List Char) : (ofBag bag).Tidy :=
  ⟨List.forall_mem_nil _, nofun⟩

theorem Tidy.act (tidy : room.Tidy) (action : Action) : (room.act action).after.Tidy := by
  apply (effect_act room action).preserves Tidy _ tidy
  intro room after change edit tidy
  exact ⟨edit.typists tidy.typists, edit.shouting tidy.shouting⟩

def without (room : Conversation) (gone : Nat → Bool) : Conversation :=
  { room with
    players := room.players.mapIdx fun num player => if gone num then player.departed else player
    shout := room.shout.filter fun shout => !gone shout.player }

def expired (room : Conversation) (now duration : Nat) : Conversation :=
  { room with shout := room.shout.filter fun shout => now - shout.started < duration }

theorem getElem?_without (room : Conversation) (gone : Nat → Bool) (num : Nat) :
    (room.without gone).players[num]? =
      room.players[num]?.map fun player => if gone num then player.departed else player :=
  List.getElem?_mapIdx

theorem eq_without {gone : Nat → Bool} (rest : after = { room with players := after.players, shout := after.shout })
    (players : ∀ num, after.players[num]? =
      room.players[num]?.map fun player => if gone num then player.departed else player)
    (shout : after.shout = room.shout.filter fun shout => !gone shout.player) : after = room.without gone := by
  have records : after.players = (room.without gone).players := by
    apply List.ext_getElem?
    intro num
    rw [players, getElem?_without]
  rw [rest, records, shout]
  rfl

theorem without_nobody (room : Conversation) : room.without (fun _ => false) = room := by
  symm
  apply eq_without rfl
  · intro num
    simp only [Bool.false_eq_true, if_false, Option.map_id']
  · cases room.shout <;> rfl

theorem without_without (room : Conversation) (first later : Nat → Bool) :
    (room.without first).without later = room.without fun num => first num || later num := by
  apply eq_without rfl
  · intro num
    rw [getElem?_without, getElem?_without, Option.map_map]
    congr 1
    funext player
    cases first num <;> cases later num <;> rfl
  · change (room.shout.filter _).filter _ = _
    rw [Option.filter_filter]
    congr 1
    funext shout
    rw [Bool.not_or]

theorem expired_expired (room : Conversation) (now duration : Nat) :
    (room.expired now duration).expired now duration = room.expired now duration := by
  simp only [expired, Option.filter_filter, Bool.and_self]

theorem expired_silent (silent : room.shout = none) (now duration : Nat) : room.expired now duration = room := by
  rw [expired, silent, Option.filter_none, ← silent]

theorem isConnected_of_player? {player : Nat} {found : Player} (known : room.player? player = some found) :
    room.isConnected player = found.connected := by
  rw [isConnected, known]
  rfl

theorem Tidy.without_absent (tidy : room.Tidy) {player : Nat} (absent : room.isConnected player = false) :
    room.without (fun num => num = player) = room := by
  symm
  apply eq_without rfl
  · intro num
    by_cases here : num = player
    · rw [decide_eq_true here, here]
      cases known : room.players[player]? with
      | none => rfl
      | some found =>
        have left : found.connected = false := (isConnected_of_player? known).symm.trans absent
        have still : found.typing = false := by
          rw [Bool.eq_false_iff]
          intro typing
          have connected := tidy.typists found (List.mem_of_getElem? known) typing
          rw [left] at connected
          cases connected
        rw [Option.map_some, if_pos rfl, Player.departed_eq left still]
    · rw [decide_eq_false here]
      simp only [Bool.false_eq_true, if_false, Option.map_id']
  · cases current : room.shout with
    | none => rfl
    | some shout =>
      have other : shout.player ≠ player := by
        intro same
        have connected := tidy.shouting player (by rw [shouter?, current, Option.map_some, same])
        rw [absent] at connected
        cases connected
      rw [Option.filter_some, decide_eq_false other]
      rfl

theorem quiet_eq (room : Conversation) (player : Nat) :
    (if room.shouter? = some player then room.endShout else room.unchanged ()).after =
      { room with shout := room.shout.filter fun shout => !decide (shout.player = player) } := by
  obtain ⟨started, players, messages, tiles, bag, shout⟩ := room
  cases shout with
  | none => rfl
  | some shout =>
    by_cases own : shout.player = player
    · simp only [shouter?, Option.map_some, own, if_true, Option.filter_some, decide_true, Bool.not_true,
        Bool.false_eq_true, if_false]
      rfl
    · simp only [shouter?, Option.map_some, Option.some.injEq, own, if_false, Option.filter_some, decide_false,
        Bool.not_false, if_true]
      rfl

theorem Tidy.leave (tidy : room.Tidy) (player : Nat) :
    (room.leave player).after = room.without fun num => num = player := by
  unfold Conversation.leave
  cases known : room.player? player with
  | none =>
    -- Nobody leaves, and nobody is who would have left something behind.
    refine (tidy.without_absent ?_).symm
    rw [isConnected, known]
    rfl
  | some found =>
    have same := isConnected_of_player? known
    by_cases connected : found.connected = true
    · simp only [if_pos connected, quiet_eq]
      apply eq_without rfl
      · intro num
        by_cases here : player = num
        · subst here
          have there : room.players[player]? = some found := known
          rw [List.getElem?_set_self (List.getElem?_eq_some_iff.1 there).1, there, decide_eq_true rfl]
          rfl
        · rw [List.getElem?_set_ne here, decide_eq_false (Ne.symm here)]
          simp only [Bool.false_eq_true, if_false, Option.map_id']
      · rfl
    · simp only [if_neg connected]
      rw [Bool.not_eq_true] at connected
      exact (tidy.without_absent (same.trans connected)).symm

theorem expireShout_eq (room : Conversation) (now duration : Nat) :
    (room.expireShout now duration).after = room.expired now duration := by
  obtain ⟨started, players, messages, tiles, bag, shout⟩ := room
  cases shout with
  | none => rfl
  | some shout =>
    simp only [expireShout, expired, Option.filter_some, decide_eq_true_eq]
    by_cases old : duration ≤ now - shout.started
    · rw [if_pos old, if_neg (Nat.not_lt.2 old)]
      rfl
    · rw [if_neg old, if_pos (Nat.not_le.1 old)]
      rfl

structure Fades (before after : Conversation) : Prop where
  rest : after = { before with players := after.players, shout := after.shout }
  players : ∀ num : Nat, (after.players[num]?).map Player.status = (before.players[num]?).map Player.status ∨
    (after.players[num]?).map Player.status = some (false, false)
  shout : after.shouter? = before.shouter? ∨ after.shouter? = none

theorem Fades.refl (room : Conversation) : room.Fades room :=
  ⟨rfl, fun _ => Or.inl rfl, Or.inl rfl⟩

theorem Fades.trans (first : before.Fades middle) (later : middle.Fades after) : before.Fades after := by
  refine ⟨?_, fun num => ?_, ?_⟩
  · rw [later.rest, first.rest]
  · rcases later.players num with same | left
    · rw [same]
      exact first.players num
    · exact Or.inr left
  · rcases later.shout with same | ended
    · rw [same]
      exact first.shout
    · exact Or.inr ended

theorem shouter?_filter (shout : Option Shout) (test : Shout → Bool) :
    (shout.filter test).map (·.player) = shout.map (·.player) ∨ (shout.filter test).map (·.player) = none := by
  cases shout with
  | none => exact Or.inl rfl
  | some shout =>
    rw [Option.filter_some]
    split
    next => exact Or.inl rfl
    next => exact Or.inr rfl

theorem fades_without (room : Conversation) (gone : Nat → Bool) : room.Fades (room.without gone) := by
  refine ⟨rfl, fun num => ?_, shouter?_filter room.shout _⟩
  rw [getElem?_without, Option.map_map]
  cases room.players[num]? with
  | none => exact Or.inl rfl
  | some player => cases gone num with
    | false => exact Or.inl rfl
    | true => exact Or.inr rfl

theorem fades_expired (room : Conversation) (now duration : Nat) : room.Fades (room.expired now duration) :=
  ⟨rfl, fun _ => Or.inl rfl, shouter?_filter room.shout _⟩

theorem ne_iff_of_sink {value : Sort _} {first second third rest : value} (early : second = first ∨ second = rest)
    (late : third = second ∨ third = rest) : third ≠ first ↔ second ≠ first ∨ third ≠ second := by
  rcases late with rfl | rfl
  · simp only [ne_eq, not_true, or_false]
  · rcases early with rfl | rfl
    · simp only [ne_eq, not_true, false_or]
    · simp only [ne_eq, not_true, or_false]

/-- What fades does not come back, so no difference is undone by a later one. -/
theorem Fades.occurred_iff (first : before.Fades middle) (later : middle.Fades after) (change : Change) :
    change.Occurred before after ↔ change.Occurred before middle ∨ change.Occurred middle after := by
  have kept {room faded : Conversation} (fades : room.Fades faded) : faded.started = room.started ∧
      faded.messages = room.messages ∧ faded.tiles = room.tiles := by
    rw [fades.rest]
    exact ⟨rfl, rfl, rfl⟩
  obtain ⟨started, messages, tiles⟩ := kept first
  obtain ⟨begun, said, laid⟩ := kept later
  cases change with
  | started => simp only [Change.Occurred, begun, started, ne_eq, not_true, or_self]
  | messageAdded => simp only [Change.Occurred, said, messages, Nat.lt_irrefl, or_self]
  | tile num => simp only [Change.Occurred, laid, tiles, ne_eq, not_true, or_self]
  | player num => exact ne_iff_of_sink (first.players num) (later.players num)
  | shouting num =>
    have shouts {room faded : Conversation} (fades : room.Fades faded) :
        (faded.shouter? = some num) = (room.shouter? = some num) ∨ (faded.shouter? = some num) = False := by
      apply fades.shout.imp
      · intro same
        rw [same]
      · intro ended
        rw [ended]
        exact eq_false (Option.some_ne_none num).symm
    simpa only [Change.Occurred, ne_eq, eq_iff_iff] using ne_iff_of_sink (shouts first) (shouts later)

end Conversation

def Action.Fading (action : Action) : Prop :=
  ∀ room : Conversation, room.Tidy → room.Fades (room.act action).after

theorem Action.fading_leave (player : Nat) : (Action.leave player).Fading := by
  intro room tidy
  change room.Fades (room.leave player).after
  rw [tidy.leave]
  exact room.fades_without _

theorem Action.fading_expire (now duration : Nat) : (Action.expire now duration).Fading := by
  intro room _
  change room.Fades (room.expireShout now duration).after
  rw [room.expireShout_eq]
  exact room.fades_expired now duration

namespace Room

variable {room before middle after : Room}

structure Sound (room : Room) : Prop where
  wired : room.Wired
  tidy : room.conversation.Tidy

theorem sound_ofBag (bag : List Char) : (ofBag bag).Sound :=
  ⟨wired_ofConversation _, Conversation.tidy_ofBag bag⟩

theorem Sound.move (sound : room.Sound) (move : RoomMove) : (room.move move).Sound := by
  refine ⟨wired_move sound.wired move, ?_⟩
  rw [conversation_move]
  cases move.action? with
  | none => exact sound.tidy
  | some action => exact sound.tidy.act action

structure Fades (before after : Room) : Prop where
  rest : after = { before with conversation := after.conversation, watches := after.watches }
  conversation : before.conversation.Fades after.conversation
  told : ∃ changes : List Change,
    (∀ change, change ∈ changes ↔ change.Occurred before.conversation after.conversation) ∧
    ∀ watch, after.stream? watch = (before.stream? watch).map fun stream => changes.foldl WatchStream.note stream

theorem Fades.refl (room : Room) : room.Fades room := by
  refine ⟨rfl, .refl _, [], ?_, ?_⟩
  · intro change
    exact iff_of_false List.not_mem_nil (Change.not_occurred_self _ change)
  · intro watch
    exact Option.map_id'.symm

theorem Fades.trans (first : before.Fades middle) (later : middle.Fades after) : before.Fades after := by
  obtain ⟨early, earlyTold, earlyHeard⟩ := first.told
  obtain ⟨late, lateTold, lateHeard⟩ := later.told
  refine ⟨?_, first.conversation.trans later.conversation, early ++ late, ?_, ?_⟩
  · rw [later.rest, first.rest]
  · intro change
    rw [List.mem_append, earlyTold, lateTold, first.conversation.occurred_iff later.conversation]
  · intro watch
    rw [lateHeard, earlyHeard, Option.map_map]
    simp only [List.foldl_append, Function.comp_def]

theorem Sound.fades (sound : room.Sound) {action : Action} (fading : action.Fading) :
    room.Fades (room.act action).2 := by
  have after := conversation_act room action
  refine ⟨?_, ?_, (room.conversation.act action).changes, ?_, stream?_act sound.wired action⟩
  · rw [after]
    exact act_eq room action
  · rw [after]
    exact fading room.conversation sound.tidy
  · rw [after]
    exact (room.conversation.act_reports action).truthful

end Room

namespace Lobby

variable {lobby before middle after : Lobby}

structure Fades (before after : Lobby) : Prop where
  pending : after.pending = before.pending
  count : after.rooms.length = before.rooms.length
  room : ∀ num room, before.room? num = some room → ∃ later, after.room? num = some later ∧ room.Fades later

theorem Fades.refl (lobby : Lobby) : lobby.Fades lobby :=
  ⟨rfl, rfl, fun _ room there => ⟨room, there, .refl room⟩⟩

theorem Fades.trans (first : before.Fades middle) (later : middle.Fades after) : before.Fades after := by
  refine ⟨later.pending.trans first.pending, later.count.trans first.count, ?_⟩
  intro num room there
  obtain ⟨between, found, early⟩ := first.room num room there
  obtain ⟨last, known, late⟩ := later.room num between found
  exact ⟨last, known, early.trans late⟩

theorem sound_moveAll (sound : lobby.Everywhere Room.Sound) (moves : List LobbyMove) :
    (lobby.moveAll moves).Everywhere Room.Sound :=
  sound.moveAll Room.sound_ofBag (fun move sound => sound.move move) moves

theorem fades_within (sound : lobby.Everywhere Room.Sound) (num : RoomNum) {action : Action}
    (fading : action.Fading) : lobby.Fades (lobby.move (.within num (.act action))) := by
  refine ⟨pending_within _ _ _, length_within _ _ _, ?_⟩
  intro other room there
  rw [room?_within, there]
  by_cases here : num = other
  · rw [if_pos here]
    exact ⟨_, rfl, (sound other room there).fades fading⟩
  · rw [if_neg here]
    exact ⟨room, rfl, .refl room⟩

theorem fades_moveAll (sound : lobby.Everywhere Room.Sound) {moves : List LobbyMove}
    (fading : ∀ move ∈ moves, ∃ num action, move = .within num (.act action) ∧ action.Fading) :
    lobby.Fades (lobby.moveAll moves) := by
  induction moves generalizing lobby with
  | nil => exact .refl lobby
  | cons move rest ih =>
    obtain ⟨num, action, rfl, fades⟩ := fading _ List.mem_cons_self
    have sounds := sound_moveAll sound [.within num (.act action)]
    exact (fades_within sound num fades).trans
      (ih sounds fun move member => fading move (List.mem_cons_of_mem _ member))

end Lobby

namespace Registry

variable {registry before after : Registry}

theorem sound_serveAll (steps : List ServerStep) : (serveAll {} steps).lobby.Everywhere Room.Sound :=
  everywhere_serveAll Room.sound_ofBag (fun move sound => sound.move move) steps

theorem tidy_conversation? (sound : registry.lobby.Everywhere Room.Sound) {num : RoomNum} {room : Conversation}
    (there : registry.conversation? num = some room) : room.Tidy := by
  obtain ⟨found, known, rfl⟩ := Option.map_eq_some_iff.1 there
  exact (sound num found known).tidy

def lost (before after : Registry) (num : RoomNum) (player : Nat) : Bool :=
  before.persons.values.any fun person =>
    person.seat = (num, player) && (after.person? person.id).isNone

theorem conversation?_remove (sound : registry.lobby.Everywhere Room.Sound) (id : PersonId) (num : RoomNum) :
    (registry.remove id).2.conversation? num =
      (registry.conversation? num).map (·.without fun player => registry.seat? id = some (num, player)) := by
  unfold remove seat?
  cases known : registry.person? id with
  | none =>
    simp only [Option.map_none, reduceCtorEq, decide_false, Conversation.without_nobody, Option.map_id']
  | some person =>
    simp only [Option.map_some, Option.some.injEq]
    rw [conversation?_act]
    change (if person.room = num then (registry.conversation? num).map _ else registry.conversation? num) = _
    by_cases here : person.room = num
    · rw [if_pos here]
      apply Option.map_congr
      intro room there
      refine ((tidy_conversation? sound there).leave person.player).trans ?_
      congr 1
      funext player
      rw [Person.seat, here, decide_eq_decide, Prod.mk.injEq, eq_comm]
      exact (and_iff_right rfl).symm
    · have elsewhere (player : Nat) : decide (person.seat = (num, player)) = false :=
        decide_eq_false fun same => here (congrArg Prod.fst same)
      simp only [if_neg here, elsewhere, Conversation.without_nobody, Option.map_id']

theorem conversation?_removeAll (sound : registry.lobby.Everywhere Room.Sound) (ids : List PersonId) (num : RoomNum) :
    (registry.removeAll ids).conversation? num = (registry.conversation? num).map
      (·.without fun player => ids.any fun id => registry.seat? id = some (num, player)) := by
  induction ids generalizing registry with
  | nil => simp only [List.any_nil, Conversation.without_nobody, Option.map_id', removeAll, List.foldl_nil]
  | cons id rest ih =>
    have left : (registry.remove id).2.lobby.Everywhere Room.Sound := by
      rw [remove_lobby]
      exact Lobby.sound_moveAll sound _
    rw [removeAll, List.foldl_cons, ← removeAll, ih left, conversation?_remove sound, Option.map_map]
    congr 1
    funext room
    rw [Function.comp_apply, Conversation.without_without]
    congr 1
    funext player
    rw [List.any_cons, Bool.eq_iff_iff, Bool.or_eq_true, Bool.or_eq_true]
    simp only [List.any_eq_true, decide_eq_true_eq, seat?_remove]
    constructor
    · rintro (first | ⟨other, member, held⟩)
      · exact Or.inl first
      · split at held
        next => cases held
        next => exact Or.inr ⟨other, member, held⟩
    · rintro (first | ⟨other, member, held⟩)
      · exact Or.inl first
      · by_cases here : id = other
        · exact Or.inl (here ▸ held)
        · exact Or.inr ⟨other, member, by rwa [if_neg here]⟩

theorem conversation?_expireAll (registry : Registry) (rooms : List RoomNum) (now duration : Nat) (num : RoomNum) :
    (rooms.foldl (fun registry room => registry.act room (.expire now duration)) registry).conversation? num =
      if num ∈ rooms then (registry.conversation? num).map (·.expired now duration)
      else registry.conversation? num := by
  have once (first : RoomNum) (registry : Registry) : (registry.act first (.expire now duration)).conversation? num =
      if first = num then (registry.conversation? num).map (·.expired now duration)
      else registry.conversation? num := by
    rw [conversation?_act]
    congr 2
    funext room
    exact room.expireShout_eq now duration
  induction rooms generalizing registry with
  | nil => exact (if_neg List.not_mem_nil).symm
  | cons first rest ih =>
    rw [List.foldl_cons, ih, once]
    by_cases here : first = num
    · have member : num ∈ first :: rest := here ▸ List.mem_cons_self
      simp only [if_pos here, if_pos member, Option.map_map, Function.comp_def, Conversation.expired_expired, ite_self]
    · have same : num ∈ first :: rest ↔ num ∈ rest := by
        rw [List.mem_cons]
        exact or_iff_right (Ne.symm here)
      simp only [if_neg here, same]

theorem mem_activeRooms (registry : Registry) (num : RoomNum) :
    num ∈ registry.activeRooms ↔ ∃ id person, registry.person? id = some person ∧ person.room = num := by
  unfold activeRooms Table.values person?
  simp only [List.mem_eraseDups, List.mem_map, Table.find?_eq_some_iff]
  constructor
  · rintro ⟨_, ⟨⟨id, person⟩, there, rfl⟩, home⟩
    exact ⟨id, person, there, home⟩
  · rintro ⟨id, person, there, home⟩
    exact ⟨person, ⟨(id, person), there, rfl⟩, home⟩

theorem Seated.quiet (seated : registry.Seated) (sound : registry.lobby.Everywhere Room.Sound) {num : RoomNum}
    (abandoned : num ∉ registry.activeRooms) {room : Conversation} (there : registry.conversation? num = some room) :
    room.shout = none := by
  cases current : room.shout with
  | none => rfl
  | some shout =>
    have shouts : room.shouter? = some shout.player := by rw [Conversation.shouter?, current, Option.map_some]
    have connected : registry.isConnected (num, shout.player) = true := by
      rw [isConnected, there]
      exact (tidy_conversation? sound there).shouting shout.player shouts
    obtain ⟨id, held⟩ := (seated.filled (num, shout.player)).1 connected
    obtain ⟨person, known, seat⟩ := Option.map_eq_some_iff.1 held
    exact absurd ((registry.mem_activeRooms num).2 ⟨id, person, known, congrArg Prod.fst seat⟩) abandoned

/-- What a pass over the time limits makes of a server. -/
structure Passed (before : Registry) (timeout duration now : Nat) (after : Registry) : Prop where
  persons : ∀ id person, after.person? id = some person ↔
    before.person? id = some person ∧ (0 < person.watchers ∨ now - person.lastSeen ≤ timeout)
  conversations : ∀ num, after.conversation? num =
    (before.conversation? num).map fun room => (room.without (before.lost after num)).expired now duration
  shouts : ∀ num room shout, after.conversation? num = some room → room.shout = some shout →
    now - shout.started < duration
  rest : before.lobby.Fades after.lobby

/-- A pass that goes through persons and rooms in some order. -/
def checkInOrder (registry : Registry) (ids : List PersonId) (rooms : List RoomNum) (duration now : Nat) : Registry :=
  rooms.foldl (fun registry room => registry.act room (.expire now duration)) (registry.removeAll ids)

theorem checkTimeouts_eq (registry : Registry) (timeout duration now : Nat) :
    registry.checkTimeouts timeout duration now = registry.checkInOrder (registry.timedOut timeout now)
      (registry.removeAll (registry.timedOut timeout now)).activeRooms duration now :=
  rfl

theorem person?_checkInOrder (registry : Registry) (ids : List PersonId) (rooms : List RoomNum) (duration now : Nat)
    (id : PersonId) : (registry.checkInOrder ids rooms duration now).person? id =
      if id ∈ ids then none else registry.person? id := by
  rw [checkInOrder, person?_act_all, person?_removeAll]

theorem lost_checkInOrder (named : registry.Named) (ids : List PersonId) (rooms : List RoomNum) (duration now : Nat)
    (num : RoomNum) : registry.lost (registry.checkInOrder ids rooms duration now) num =
      fun player => ids.any fun id => registry.seat? id = some (num, player) := by
  funext player
  rw [Bool.eq_iff_iff, lost]
  simp only [Table.values, List.any_map, List.any_eq_true, Function.comp_apply, Bool.and_eq_true, decide_eq_true_eq,
    person?_checkInOrder, Option.isNone_iff_eq_none]
  constructor
  · rintro ⟨⟨id, person⟩, there, seat, gone⟩
    have known := (Table.find?_eq_some_iff registry.persons id person).2 there
    have own := named id person known
    refine ⟨id, ?_, ?_⟩
    · by_contra kept
      rw [own, if_neg kept] at gone
      cases known.symm.trans gone
    · rw [← seat]
      exact Option.map_eq_some_iff.2 ⟨person, known, rfl⟩
  · rintro ⟨id, removed, held⟩
    obtain ⟨person, known, seat⟩ := Option.map_eq_some_iff.1 held
    refine ⟨(id, person), (Table.find?_eq_some_iff registry.persons id person).1 known, seat, ?_⟩
    rw [named id person known, if_pos removed]

theorem fades_checkInOrder (sound : registry.lobby.Everywhere Room.Sound) (ids : List PersonId) (rooms : List RoomNum)
    (duration now : Nat) : registry.lobby.Fades (registry.checkInOrder ids rooms duration now).lobby := by
  rw [checkInOrder, actAll_lobby, removeAll_lobby, ← Lobby.moveAll_append]
  apply Lobby.fades_moveAll sound
  intro move member
  rcases List.mem_append.1 member with first | last
  · obtain ⟨person, rfl⟩ := registry.mem_removeMoves ids move first
    exact ⟨_, _, rfl, Action.fading_leave person.player⟩
  · obtain ⟨num, _, rfl⟩ := List.mem_map.1 last
    exact ⟨num, _, rfl, Action.fading_expire now duration⟩

theorem conversation?_checkInOrder (seated : registry.Seated) (sound : registry.lobby.Everywhere Room.Sound)
    {ids : List PersonId} {rooms : List RoomNum} (perm : rooms.Perm (registry.removeAll ids).activeRooms)
    (duration now : Nat) (num : RoomNum) :
    (registry.checkInOrder ids rooms duration now).conversation? num = (registry.conversation? num).map fun room =>
      (room.without fun player => ids.any fun id => registry.seat? id = some (num, player)).expired now duration := by
  have sounds : (registry.removeAll ids).lobby.Everywhere Room.Sound := by
    rw [removeAll_lobby]
    exact Lobby.sound_moveAll sound _
  have expired : (registry.checkInOrder ids rooms duration now).conversation? num =
      ((registry.removeAll ids).conversation? num).map (·.expired now duration) := by
    rw [checkInOrder, conversation?_expireAll]
    by_cases active : num ∈ rooms
    · rw [if_pos active]
    · -- No pass looks at this room; its shout, if any, would have a person for a shouter.
      rw [if_neg active]
      cases there : (registry.removeAll ids).conversation? num with
      | none => rfl
      | some room =>
        have silent := (seated.removeAll ids).1.quiet sounds (fun member => active (perm.mem_iff.2 member)) there
        rw [Option.map_some, Conversation.expired_silent silent]
  rw [expired, conversation?_removeAll sound, Option.map_map]
  rfl

theorem passed_checkInOrder (seated : registry.Seated) (sound : registry.lobby.Everywhere Room.Sound)
    {timeout duration now : Nat} {ids : List PersonId} (silent : ids.Perm (registry.timedOut timeout now))
    {rooms : List RoomNum} (active : rooms.Perm (registry.removeAll ids).activeRooms) :
    registry.Passed timeout duration now (registry.checkInOrder ids rooms duration now) := by
  have conversations (num : RoomNum) : (registry.checkInOrder ids rooms duration now).conversation? num =
      (registry.conversation? num).map fun room =>
        (room.without (registry.lost (registry.checkInOrder ids rooms duration now) num)).expired now duration := by
    rw [lost_checkInOrder seated.named]
    exact conversation?_checkInOrder seated sound active duration now num
  constructor
  case persons =>
    intro id person
    rw [person?_checkInOrder, Option.ite_none_left_eq_some, and_comm]
    apply and_congr_right
    intro known
    rw [silent.mem_iff, mem_timedOut seated.named, known]
    simp only [Option.some.injEq, exists_eq_left', Person.isTimedOut, Bool.and_eq_true, decide_eq_true_eq]
    omega
  case conversations => exact conversations
  case shouts =>
    intro num room shout there current
    rw [conversations] at there
    obtain ⟨before, _, rfl⟩ := Option.map_eq_some_iff.1 there
    exact of_decide_eq_true (Option.filter_eq_some_iff.1 current).2
  case rest => exact fades_checkInOrder sound ids rooms duration now

/-- One pass over the time limits, whatever a server did before, and in whatever order it goes
through persons and rooms: those whom no stream watches and who were silent longer than the timeout
are removed and no others, their players leave, the shouts of those players and the shouts that are
old enough end, in rooms without persons too, and nothing else changes. -/
theorem checkTimeouts_passed (steps : List ServerStep) (timeout duration now : Nat) :
    let registry := serveAll {} steps
    registry.Passed timeout duration now (registry.checkTimeouts timeout duration now) ∧
      ∀ ids rooms, ids.Perm (registry.timedOut timeout now) → rooms.Perm (registry.removeAll ids).activeRooms →
        registry.Passed timeout duration now (registry.checkInOrder ids rooms duration now) := by
  intro registry
  have seated : registry.Seated := seated_empty.serveAll steps
  have sound := sound_serveAll steps
  constructor
  · rw [checkTimeouts_eq]
    exact passed_checkInOrder seated sound (.refl _) (.refl _)
  · intro ids rooms silent active
    exact passed_checkInOrder seated sound silent active

end Registry

end TileRoom
