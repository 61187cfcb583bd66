import TileRoom.Conversation.Action

/-! What an operation does to a room, one edit at a time. Each edit gives out one change,
and an operation makes at most two of them; what every edit keeps is kept by every run. -/

namespace TileRoom

namespace Conversation

/-- One edit of a room, with the change it gives out and the room it leaves. -/
inductive Edit (room : Conversation) : Change → Conversation → Prop where
  | started (waiting : room.started = false) : Edit room .started { room with started := true }
  | joined (name : String) (free : room.isOpen = true) :
      Edit room (.player room.players.length)
        { room with players := room.players ++ [{ num := room.players.length, name }] }
  | said {player : Nat} (text : String) (connected : room.isConnected player = true) :
      Edit room .messageAdded { room with messages := room.messages ++ [⟨player, text⟩] }
  | typed {player : Nat} {found : Player} (typing : Bool) (known : room.player? player = some found)
      (connected : found.connected = true) (other : found.typing ≠ typing) :
      Edit room (.player player) { room with players := room.players.set player { found with typing } }
  | left {player : Nat} {found : Player} (known : room.player? player = some found)
      (connected : found.connected = true) (silent : room.shouter? ≠ some player) :
      Edit room (.player player)
        { room with players := room.players.set player { found with connected := false, typing := false } }
  | shouted {player : Nat} (now : Nat) (connected : room.isConnected player = true)
      (free : room.shout = none) : Edit room (.shouting player) { room with shout := some ⟨player, now⟩ }
  | hushed {shout : Shout} (current : room.shout = some shout) :
      Edit room (.shouting shout.player) { room with shout := none }
  | turned {player : Nat} {letter : Char} {bag : List Char} (connected : room.isConnected player = true)
      (begun : room.started = true) (full : room.bag = letter :: bag) :
      Edit room (.tile room.tiles.length)
        { room with bag, tiles := room.tiles ++ [dealt room.tiles.length letter player] }
  | moved {player tile : Nat} {found : Tile} (x y : Int32) (connected : room.isConnected player = true)
      (laid : room.tiles[tile]? = some found)
      (other : { found with x, y, lastPlayer := some player } ≠ found) :
      Edit room (.tile tile)
        { room with tiles := room.tiles.set tile { found with x, y, lastPlayer := some player } }

/-- What an operation can do to a room: nothing, one edit, or two, the second of which
does not touch the shout. Each notice shows the room right after its edit. -/
inductive Effect (room : Conversation) : List Notice → Conversation → Prop where
  | nothing : Effect room [] room
  | one {change : Change} {after : Conversation} (edit : Edit room change after) : Effect room [⟨change, after⟩] after
  | two {change next : Change} {middle after : Conversation} (edit : Edit room change middle)
      (last : Edit middle next after) (calm : after.shout = middle.shout) :
      Effect room [⟨change, middle⟩, ⟨next, after⟩] after

theorem Effect.preserves {room after : Conversation} {notices : List Notice}
    (effect : Effect room notices after) (property : Conversation → Prop)
    (kept : ∀ {room after change}, Edit room change after → property room → property after)
    (holds : property room) : property after := by
  cases effect with
  | nothing => exact holds
  | one edit => exact kept edit holds
  | two edit last => exact kept last (kept edit holds)

theorem start_eq (room : Conversation) : room.start.after = { room with started := true } := by
  unfold start
  split
  · rename_i started
    rw [← started]
    rfl
  · rfl

theorem effect_start (room : Conversation) : Effect room room.start.notices room.start.after := by
  unfold start
  split
  · exact .nothing
  · rename_i waiting
    exact .one (.started (Bool.not_eq_true _ ▸ waiting))

theorem effect_join (room : Conversation) (name : String) :
    Effect room (room.join name).notices (room.join name).after := by
  unfold join
  split
  · rename_i free
    have waiting : room.started = false := by
      unfold isOpen at free
      rw [Bool.and_eq_true, Bool.not_eq_true'] at free
      exact free.1
    simp only
    split
    · rw [start, if_neg (by rw [waiting]; decide)]
      exact .two (.joined name free) (.started waiting) rfl
    · exact .one (.joined name free)
  · exact .nothing

theorem effect_say (room : Conversation) (player : Nat) (text : String) :
    Effect room (room.say player text).notices (room.say player text).after := by
  unfold say
  split
  · rename_i connected
    exact .one (.said text connected)
  · exact .nothing

theorem effect_setTyping (room : Conversation) (player : Nat) (typing : Bool) :
    Effect room (room.setTyping player typing).notices (room.setTyping player typing).after := by
  unfold setTyping
  split
  · rename_i found known
    split
    · rename_i differs
      rw [Bool.and_eq_true, bne_iff_ne] at differs
      exact .one (.typed typing known differs.1 differs.2)
    · exact .nothing
  · exact .nothing

theorem effect_endShout (room : Conversation) : Effect room room.endShout.notices room.endShout.after := by
  unfold endShout
  split
  · rename_i shout current
    exact .one (.hushed current)
  · exact .nothing

theorem effect_leave (room : Conversation) (player : Nat) :
    Effect room (room.leave player).notices (room.leave player).after := by
  unfold leave
  split
  · rename_i found known
    split
    · rename_i connected
      simp only
      split
      · rename_i shouting
        obtain ⟨shout, current, rfl⟩ := Option.map_eq_some_iff.1 shouting
        rw [endShout, current]
        exact .two (.hushed current) (.left known connected nofun) rfl
      · rename_i silent
        exact .one (.left known connected silent)
    · exact .nothing
  · exact .nothing

theorem effect_beginShout (room : Conversation) (player now : Nat) :
    Effect room (room.beginShout player now).notices (room.beginShout player now).after := by
  unfold beginShout
  split
  · rename_i free
    rw [Bool.and_eq_true, Option.isNone_iff_eq_none] at free
    exact .one (.shouted now free.1 free.2)
  · exact .nothing

theorem effect_expireShout (room : Conversation) (now duration : Nat) :
    Effect room (room.expireShout now duration).notices (room.expireShout now duration).after := by
  unfold expireShout
  split
  · split
    · exact effect_endShout room
    · exact .nothing
  · exact .nothing

theorem effect_turn (room : Conversation) (player : Nat) :
    Effect room (room.turn player).notices (room.turn player).after := by
  unfold turn
  split
  · rename_i connected
    simp only
    split
    · exact effect_start room
    · rename_i letter bag full
      unfold start at full ⊢
      split at full <;> rename_i begun
      · rw [if_pos begun]
        exact .one (.turned connected begun full)
      · rw [if_neg begun]
        exact .two (.started (Bool.not_eq_true _ ▸ begun)) (.turned connected rfl full) rfl
  · exact .nothing

theorem effect_move (room : Conversation) (player tile : Nat) (x y : Int32) :
    Effect room (room.move player tile x y).notices (room.move player tile x y).after := by
  unfold move
  split
  · rename_i connected
    split
    · rename_i found laid
      simp only
      split
      · exact .nothing
      · rename_i other
        exact .one (.moved x y connected laid other)
    · exact .nothing
  · exact .nothing

theorem effect_act (room : Conversation) (action : Action) :
    Effect room (room.act action).notices (room.act action).after := by
  cases action with
  | join name => exact effect_join room name
  | start => exact effect_start room
  | say player text => exact effect_say room player text
  | typing player value => exact effect_setTyping room player value
  | leave player => exact effect_leave room player
  | shout player now => exact effect_beginShout room player now
  | expire now duration => exact effect_expireShout room now duration
  | turn player => exact effect_turn room player
  | move player tile x y => exact effect_move room player tile x y

theorem run_preserves (property : Conversation → Prop)
    (kept : ∀ {room after change}, Edit room change after → property room → property after)
    (room : Conversation) (actions : List Action) (holds : property room) :
    property (room.run actions) := by
  induction actions generalizing room with
  | nil => exact holds
  | cons action rest ih =>
    apply ih
    exact (effect_act room action).preserves property kept holds

end Conversation

end TileRoom
