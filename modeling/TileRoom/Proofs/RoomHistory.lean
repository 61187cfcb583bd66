import TileRoom.Proofs.Presence
import TileRoom.Proofs.RoomNotices

/-! The history of a room. Whatever is done in a room, its players, tiles, letters and shout stay
in order. What is over stays over: a game that began is not opened again, whoever left does not
come back, and nothing that was said is taken back. A shout lasts until its player leaves or it
expires, and no longer. -/

namespace TileRoom

def Action.player? : Action → Option Nat
  | .say player _ | .typing player _ | .leave player | .shout player _ | .turn player | .move player .. =>
      some player
  | .join _ | .start | .expire .. => none

/-- Whether an operation ends a shout of a player that started at a time. No time passed when the
time of the operation is before the start. -/
def Action.Ends (player started : Nat) : Action → Prop
  | .leave other => other = player
  | .expire now duration => duration ≤ now - started
  | .join _ | .start | .say .. | .typing .. | .shout .. | .turn _ | .move .. => False

/-- Two marks of a shout, set and cleared each for itself: who shouts, and when it started. -/
structure ShoutMarks where
  shouter : Option Nat := none
  started : Option Nat := none
deriving DecidableEq

namespace ShoutMarks

def act (marks : ShoutMarks) (room : Conversation) : Action → ShoutMarks
  | .leave player => if room.isConnected player ∧ marks.shouter = some player then {} else marks
  | .shout player now =>
      if room.isConnected player ∧ marks.shouter = none then { shouter := some player, started := some now }
      else marks
  | .expire now duration =>
      match marks.started with
      | some started => if duration ≤ now - started then {} else marks
      | none => marks
  | .join _ | .start | .say .. | .typing .. | .turn _ | .move .. => marks

def run (marks : ShoutMarks) (room : Conversation) : List Action → ShoutMarks
  | [] => marks
  | action :: rest => (marks.act room action).run (room.act action).after rest

variable {player started : Nat} {action : Action}

theorem act_lasting (room : Conversation) (lasting : ¬action.Ends player started) :
    (⟨some player, some started⟩ : ShoutMarks).act room action = ⟨some player, some started⟩ := by
  cases action with
  | join | start | say | typing | turn | move => rfl
  | leave other => exact if_neg fun own => lasting (Option.some.inj own.2).symm
  | shout other now => exact if_neg fun free => Option.some_ne_none _ free.2
  | expire now duration => exact if_neg lasting

theorem act_ending {room : Conversation} (connected : room.isConnected player = true)
    (ends : action.Ends player started) :
    (⟨some player, some started⟩ : ShoutMarks).act room action = {} := by
  cases action with
  | join | start | say | typing | shout | turn | move => exact ends.elim
  | leave other =>
    obtain rfl : other = player := ends
    exact if_pos ⟨connected, rfl⟩
  | expire now duration => exact if_pos ends

end ShoutMarks

namespace Conversation

variable {room after later : Conversation} {change : Change} {num : Nat} {action : Action}

def marks (room : Conversation) : ShoutMarks :=
  ⟨room.shouter?, room.shout.map (·.started)⟩

theorem marks_of_parts (kept : RoomPart.shout ∉ action.parts) : (room.act action).after.marks = room.marks := by
  have same : (room.act action).after.shout = room.shout := room.act_same kept
  rw [marks, marks, shouter?, shouter?, same]

theorem marks_leave (room : Conversation) (player : Nat) :
    (room.leave player).after.marks = room.marks.act room (.leave player) := by
  rw [ShoutMarks.act]
  unfold leave
  split
  next found known =>
    have same : room.isConnected player = found.connected := by
      rw [isConnected, known]
      rfl
    rw [same]
    by_cases connected : found.connected = true
    · rw [if_pos connected]
      dsimp only
      by_cases shouting : room.shouter? = some player
      · have both : found.connected = true ∧ room.marks.shouter = some player := ⟨connected, shouting⟩
        obtain ⟨shout, current, _⟩ := Option.map_eq_some_iff.1 shouting
        rw [if_pos both, if_pos shouting, endShout, current]
        rfl
      · have silent : ¬(found.connected = true ∧ room.marks.shouter = some player) :=
          fun both => shouting both.2
        rw [if_neg silent, if_neg shouting]
        rfl
    · rw [if_neg connected, if_neg fun both => connected both.1]
      rfl
  next unknown =>
    have gone : room.isConnected player = false := by
      rw [isConnected, unknown]
      rfl
    rw [gone, if_neg fun both => Bool.false_ne_true both.1]
    rfl

theorem marks_beginShout (room : Conversation) (player now : Nat) :
    (room.beginShout player now).after.marks = room.marks.act room (.shout player now) := by
  rw [beginShout, ShoutMarks.act]
  cases current : room.shout with
  | some shout =>
    have taken : room.marks.shouter ≠ none := by
      rw [marks, shouter?, current]
      exact Option.some_ne_none _
    rw [Option.isNone_some, Bool.and_false, if_neg Bool.false_ne_true, if_neg fun both => taken both.2]
    rfl
  | none =>
    have free : room.marks.shouter = none := by
      rw [marks, shouter?, current]
      rfl
    rw [Option.isNone_none, Bool.and_true]
    by_cases connected : room.isConnected player = true
    · rw [if_pos connected, if_pos ⟨connected, free⟩]
      rfl
    · rw [if_neg connected, if_neg fun both => connected both.1]
      rfl

theorem marks_expireShout (room : Conversation) (now duration : Nat) :
    (room.expireShout now duration).after.marks = room.marks.act room (.expire now duration) := by
  have started : room.marks.started = room.shout.map (·.started) := rfl
  rw [expireShout, ShoutMarks.act, started]
  cases current : room.shout with
  | none => rfl
  | some shout =>
    rw [Option.map_some]
    dsimp only
    by_cases due : duration ≤ now - shout.started
    · rw [if_pos due, if_pos due, endShout, current]
      rfl
    · rw [if_neg due, if_neg due]
      rfl

theorem marks_act (room : Conversation) (action : Action) :
    (room.act action).after.marks = room.marks.act room action := by
  cases action with
  | join | start | say | typing | turn | move => exact marks_of_parts (by simp [Action.parts])
  | leave player => exact marks_leave room player
  | shout player now => exact marks_beginShout room player now
  | expire now duration => exact marks_expireShout room now duration

theorem marks_run (room : Conversation) (actions : List Action) :
    room.marks.run room actions = (room.run actions).marks := by
  induction actions generalizing room with
  | nil => rfl
  | cons action rest ih =>
    rw [ShoutMarks.run, ← marks_act]
    exact ih (room.act action).after

theorem run_append (room : Conversation) (first last : List Action) :
    room.run (first ++ last) = (room.run first).run last :=
  List.foldl_append

theorem run_keeps (property : Conversation → Prop)
    (kept : ∀ {room} action, property room → property (room.act action).after) (room : Conversation)
    (actions : List Action) (holds : property room) : property (room.run actions) := by
  induction actions generalizing room with
  | nil => exact holds
  | cons action rest ih => exact ih _ (kept action holds)

structure Orderly (bag : List Char) (room : Conversation) : Prop where
  few : room.players.length ≤ maxPlayers
  numbered : ∀ (num : Nat) (player : Player), room.players[num]? = some player → player.num = num
  full : room.isFull = true → room.started = true
  begun : room.tiles ≠ [] → room.started = true
  typists : ∀ player ∈ room.players, player.typing = true → player.connected = true
  shouting : ∀ player, room.shouter? = some player → room.isConnected player = true
  laid : ∀ (num : Nat) (tile : Tile), room.tiles[num]? = some tile →
    tile.num = num ∧ num < bag.length ∧ bag[bag.length - 1 - num]? = some tile.letter
  /-- A bag is dealt from its end. -/
  letters : room.bag.reverse ++ (room.tiles.map (·.letter)).reverse = bag

theorem Edit.begun (edit : Edit room change after) (begun : room.tiles ≠ [] → room.started = true) :
    after.tiles ≠ [] → after.started = true := by
  cases edit with
  | started => exact fun _ => rfl
  | joined | said | typed | left | shouted | hushed => exact begun
  | turned _ started => exact fun _ => started
  | moved =>
    intro some
    refine begun fun none => some ?_
    rw [none, List.set_nil]

theorem Edit.typists (edit : Edit room change after)
    (typists : ∀ player ∈ room.players, player.typing = true → player.connected = true) :
    ∀ player ∈ after.players, player.typing = true → player.connected = true := by
  intro player member typing
  cases edit with
  | started | said | shouted | hushed | turned | moved => exact typists player member typing
  | joined =>
    rcases List.mem_append.1 member with old | new
    · exact typists player old typing
    · rw [List.mem_singleton.1 new]
  | typed _ _ connected =>
    rcases List.mem_or_eq_of_mem_set member with old | rfl
    · exact typists player old typing
    · exact connected
  | left =>
    rcases List.mem_or_eq_of_mem_set member with old | rfl
    · exact typists player old typing
    · cases typing

theorem Edit.shouting (edit : Edit room change after)
    (shouting : ∀ player, room.shouter? = some player → room.isConnected player = true) :
    ∀ player, after.shouter? = some player → after.isConnected player = true := by
  intro player shouts
  cases edit with
  | started | said | turned | moved => exact shouting player shouts
  | joined =>
    have connected := shouting player shouts
    rw [isConnected, player?, List.getElem?_append_left (lt_of_isConnected connected)]
    exact connected
  | typed typing known connected =>
    rw [isConnected_set known rfl]
    split
    next => exact connected
    next => exact shouting player shouts
  | left known connected silent =>
    rw [isConnected_set known rfl, if_neg]
    · exact shouting player shouts
    · rintro rfl
      exact silent shouts
  | shouted now connected =>
    obtain rfl := Option.some.inj shouts
    exact connected
  | hushed => cases shouts

theorem Edit.dealing (edit : Edit room change after) :
    after.tiles.map (·.letter) ++ after.bag = room.tiles.map (·.letter) ++ room.bag := by
  cases edit with
  | started | joined | said | typed | left | shouted | hushed => rfl
  | turned _ _ full =>
    rw [full, List.map_append, List.append_assoc]
    rfl
  | @moved _ place found x y _ laid =>
    have letter : (room.tiles.map (·.letter))[place]? = some found.letter := by
      rw [List.getElem?_map, laid, Option.map_some]
    obtain ⟨inside, same⟩ := List.getElem?_eq_some_iff.1 letter
    rw [List.map_set, ← same, List.set_getElem_self]

theorem Edit.kept_begun (edit : Edit room change after) {count : Nat}
    (begun : room.started = true ∧ room.players.length = count) :
    after.started = true ∧ after.players.length = count := by
  cases edit with
  | started => exact ⟨rfl, begun.2⟩
  | joined name free =>
    rw [isOpen, begun.1] at free
    cases free
  | typed | left => exact ⟨begun.1, List.length_set.trans begun.2⟩
  | said | shouted | hushed | turned | moved => exact begun

theorem begun_run (begun : room.started = true) (actions : List Action) :
    (room.run actions).started = true ∧ (room.run actions).players.length = room.players.length :=
  run_preserves (fun later => later.started = true ∧ later.players.length = room.players.length)
    (fun edit begun => edit.kept_begun begun) room actions ⟨begun, rfl⟩

theorem full_act (action : Action) (full : room.isFull = true → room.started = true)
    (filled : (room.act action).after.isFull = true) : (room.act action).after.started = true := by
  by_cases joins : ∃ name, action = .join name
  · obtain ⟨name, rfl⟩ := joins
    change (room.join name).after.isFull = true at filled
    change (room.join name).after.started = true
    unfold join at filled ⊢
    split at filled
    next free =>
      rw [if_pos free]
      dsimp only at filled ⊢
      split at filled
      next now =>
        rw [if_pos now, start_eq]
      next short => exact absurd filled short
    next closed =>
      rw [if_neg closed]
      exact full filled
  · have same := players_length_act (fun name join => joins ⟨name, join⟩) room
    rw [isFull, same] at filled
    exact (begun_run (full filled) [action]).1

theorem laid_of_dealing {bag : List Char} (consistent : room.Consistent)
    (dealing : room.tiles.map (·.letter) ++ room.bag = bag.reverse) (num : Nat) (tile : Tile)
    (found : room.tiles[num]? = some tile) :
    tile.num = num ∧ num < bag.length ∧ bag[bag.length - 1 - num]? = some tile.letter := by
  have inside := (List.getElem?_eq_some_iff.1 found).1
  have size := congrArg List.length dealing
  rw [List.length_append, List.length_map, List.length_reverse] at size
  have below : num < bag.length := by omega
  refine ⟨(consistent.laid num tile found).1, below, ?_⟩
  calc
    bag[bag.length - 1 - num]? = bag.reverse[num]? := (List.getElem?_reverse below).symm
    _ = (room.tiles.map (·.letter))[num]? := by
      rw [← dealing, List.getElem?_append_left (by rwa [List.length_map])]
    _ = some tile.letter := by rw [List.getElem?_map, found, Option.map_some]

theorem orderly_run (bag : List Char) (actions : List Action) : ((ofBag bag).run actions).Orderly bag := by
  have consistent := consistent_run (consistent_ofBag bag) actions
  have dealing := run_preserves (fun room => room.tiles.map (·.letter) ++ room.bag = bag.reverse)
    (fun edit same => edit.dealing.trans same) (ofBag bag) actions rfl
  refine ⟨consistent.few, consistent.numbered, ?_, ?_, ?_, ?_, laid_of_dealing consistent dealing, ?_⟩
  · exact run_keeps (fun room => room.isFull = true → room.started = true) full_act (ofBag bag) actions nofun
  · exact run_preserves (fun room => room.tiles ≠ [] → room.started = true) Edit.begun (ofBag bag) actions
      fun some => absurd rfl some
  · exact run_preserves (fun room => ∀ player ∈ room.players, player.typing = true → player.connected = true)
      Edit.typists (ofBag bag) actions (List.forall_mem_nil _)
  · exact run_preserves (fun room => ∀ player, room.shouter? = some player → room.isConnected player = true)
      Edit.shouting (ofBag bag) actions nofun
  · rw [← List.reverse_append, dealing, List.reverse_reverse]

structure Onward (room later : Conversation) : Prop where
  begun : room.started = true →
    later.started = true ∧ later.isOpen = false ∧ later.players.length = room.players.length
  gone : ∀ num < room.players.length, room.isConnected num = false →
    later.isConnected num = false ∧
      ∀ action : Action, action.player? = some num →
        (later.act action).after = later ∧ (later.act action).changes = []
  left : ∀ num, (later.act (.leave num)).after.isConnected num = false
  messages : room.messages <+: later.messages

theorem act_absent (gone : room.isConnected num = false) (own : action.player? = some num) :
    (room.act action).after = room ∧ (room.act action).changes = [] := by
  have absent : ¬room.isConnected num = true := by
    rw [gone]
    exact Bool.false_ne_true
  have missing (found : Player) (known : room.player? num = some found) : ¬found.connected = true := by
    rw [isConnected, known] at absent
    exact absent
  cases action with
  | join | start | expire => cases own
  | say player text =>
    obtain rfl : player = num := Option.some.inj own
    show (room.say player text).after = room ∧ (room.say player text).changes = []
    rw [say, if_neg absent]
    exact ⟨rfl, rfl⟩
  | typing player value =>
    obtain rfl : player = num := Option.some.inj own
    show (room.setTyping player value).after = room ∧ (room.setTyping player value).changes = []
    unfold setTyping
    split
    next found known =>
      rw [Bool.eq_false_iff.2 (missing found known), Bool.false_and, if_neg Bool.false_ne_true]
      exact ⟨rfl, rfl⟩
    next => exact ⟨rfl, rfl⟩
  | leave player =>
    obtain rfl : player = num := Option.some.inj own
    show (room.leave player).after = room ∧ (room.leave player).changes = []
    unfold leave
    split
    next found known =>
      rw [if_neg (missing found known)]
      exact ⟨rfl, rfl⟩
    next => exact ⟨rfl, rfl⟩
  | shout player now =>
    obtain rfl : player = num := Option.some.inj own
    show (room.beginShout player now).after = room ∧ (room.beginShout player now).changes = []
    rw [beginShout, gone, Bool.false_and, if_neg Bool.false_ne_true]
    exact ⟨rfl, rfl⟩
  | turn player =>
    obtain rfl : player = num := Option.some.inj own
    show (room.turn player).after = room ∧ (room.turn player).changes = []
    rw [turn, if_neg absent]
    exact ⟨rfl, rfl⟩
  | move player tile x y =>
    obtain rfl : player = num := Option.some.inj own
    show (room.move player tile x y).after = room ∧ (room.move player tile x y).changes = []
    rw [move, if_neg absent]
    exact ⟨rfl, rfl⟩

theorem gone_run (inside : num < room.players.length) (gone : room.isConnected num = false)
    (actions : List Action) : (room.run actions).isConnected num = false := by
  have kept := run_keeps (fun room => num < room.players.length ∧ room.isConnected num = false)
    (fun {room} action holds => ⟨Nat.lt_of_lt_of_le holds.1 (altered_act room action).players_le,
      gone_act holds.1 holds.2 action⟩) room actions ⟨inside, gone⟩
  exact kept.2

theorem onward_run (room : Conversation) (actions : List Action) : room.Onward (room.run actions) where
  begun started := by
    obtain ⟨still, same⟩ := begun_run started actions
    have closed : (room.run actions).isOpen = false := by
      rw [isOpen, still]
      rfl
    exact ⟨still, closed, same⟩
  gone num inside gone :=
    have still := gone_run inside gone actions
    ⟨still, fun action own => act_absent still own⟩
  left num := by
    show ((room.run actions).leave num).after.isConnected num = false
    rw [isConnected_leave, decide_eq_true rfl]
    exact Bool.and_false _
  messages := run_keeps (fun later => room.messages <+: later.messages)
    (fun {later} action grown => grown.trans (altered_act later action).messages) room actions
    (List.prefix_refl _)

/-- A shout that begins lasts through all operations but those that end it, and is over after
one of these. -/
def ShoutsLast (room : Conversation) (later : List Action) : Prop :=
  ∀ player now, (room.act (.shout player now)).answer = .flag true →
    (∀ action ∈ later, ¬action.Ends player now) →
      let lasting := (room.act (.shout player now)).after.run later
      lasting.shouter? = some player ∧
        ∀ action : Action, action.Ends player now → (lasting.act action).after.shouter? = none

theorem marks_begun {player now : Nat} (begun : (room.act (.shout player now)).answer = .flag true) :
    (room.act (.shout player now)).after.marks = ⟨some player, some now⟩ := by
  change (room.beginShout player now).after.marks = _
  have answer : (room.beginShout player now).answer = true := Answer.flag.inj begun
  unfold beginShout at answer ⊢
  split at answer
  next free =>
    rw [if_pos free]
    rfl
  next => cases answer

theorem marks_lasting {player started : Nat} (begun : room.marks = ⟨some player, some started⟩)
    {actions : List Action} (lasting : ∀ action ∈ actions, ¬action.Ends player started) :
    (room.run actions).marks = ⟨some player, some started⟩ := by
  induction actions generalizing room with
  | nil => exact begun
  | cons action rest ih =>
    obtain ⟨first, others⟩ := List.forall_mem_cons.1 lasting
    refine ih ?_ others
    rw [marks_act, begun, ShoutMarks.act_lasting room first]

/-- Whatever is done in a room, it stays in order, what is over stays over, and a shout lasts until
it is ended. -/
theorem rooms_keep_order (bag : List Char) (earlier later : List Action) :
    let room := (ofBag bag).run earlier
    let marks := ShoutMarks.run {} (ofBag bag) earlier
    room.Orderly bag ∧ room.Onward (room.run later) ∧
      (marks.shouter = room.shouter? ∧ marks.started.isSome = marks.shouter.isSome) ∧
      room.ShoutsLast later := by
  intro room marks
  have same : marks = room.marks := marks_run (ofBag bag) earlier
  refine ⟨orderly_run bag earlier, onward_run room later, ⟨congrArg ShoutMarks.shouter same, ?_⟩, ?_⟩
  · rw [same, Conversation.marks, shouter?, Option.isSome_map, Option.isSome_map]
  · intro player now begun lasting
    have still := marks_lasting (marks_begun begun) lasting
    have shouting := congrArg ShoutMarks.shouter still
    refine ⟨shouting, fun action ends => ?_⟩
    have orderly : ((room.act (.shout player now)).after.run later).Orderly bag := by
      have whole := orderly_run bag (earlier ++ .shout player now :: later)
      rwa [run_append] at whole
    have ended := marks_act ((room.act (.shout player now)).after.run later) action
    rw [still, ShoutMarks.act_ending (orderly.shouting player shouting) ends] at ended
    exact congrArg ShoutMarks.shouter ended

/-- A shout that goes on after another player left and time passed, until it expires. -/
theorem shout_expires_in_time :
    let room := (ofBag ['A', 'B']).run [.join "ann", .join "bob", .turn 0, .shout 1 5]
    let lasting := room.run [.leave 0, .expire 8 5, .shout 1 9]
    lasting.shouter? = some 1 ∧ (lasting.act (.expire 10 5)).after.shouter? = none := by
  obtain ⟨_, _, _, lasts⟩ := rooms_keep_order ['A', 'B'] [.join "ann", .join "bob", .turn 0]
    [.leave 0, .expire 8 5, .shout 1 9]
  obtain ⟨shouting, ended⟩ := lasts 1 5 rfl (by simp [Action.Ends])
  exact ⟨shouting, ended (.expire 10 5) (Nat.le_refl 5)⟩

end Conversation

end TileRoom
