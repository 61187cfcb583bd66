import TileRoom.Proofs.RoomChanges

/-! Who is connected in a room. A join connects one new player and a leave disconnects one;
no other operation connects or disconnects anybody, and nobody comes back. -/

namespace TileRoom

/-- Whether an operation leaves it as it is who is in the room. -/
def Action.stays : Action → Bool
  | .join _ | .leave _ => false
  | .start | .say .. | .typing .. | .shout .. | .expire .. | .turn _ | .move .. => true

namespace Conversation

theorem isConnected_of_players {room after : Conversation} (same : after.players = room.players) (num : Nat) :
    after.isConnected num = room.isConnected num := by
  rw [isConnected, player?, same]
  rfl

theorem isConnected_set {room after : Conversation} {player : Nat} {found later : Player}
    (known : room.player? player = some found) (changed : after.players = room.players.set player later)
    (num : Nat) :
    after.isConnected num = if num = player then later.connected else room.isConnected num := by
  rw [isConnected, player?, changed]
  split
  · rename_i same
    subst same
    rw [List.getElem?_set_self (List.getElem?_eq_some_iff.1 known).1]
    rfl
  · rename_i other
    rw [List.getElem?_set_ne (Ne.symm other)]
    rfl

theorem players_start (room : Conversation) : room.start.after.players = room.players := by
  rw [start_eq]

theorem players_join {room : Conversation} (free : room.isOpen = true) (name : String) :
    (room.join name).after.players = room.players ++ [{ num := room.players.length, name }] ∧
      (room.join name).answer = some room.players.length := by
  unfold join
  rw [if_pos free]
  dsimp only
  split
  · exact ⟨players_start _, rfl⟩
  · exact ⟨rfl, rfl⟩

theorem isConnected_join {room : Conversation} (free : room.isOpen = true) (name : String) (num : Nat) :
    (room.join name).after.isConnected num = (room.isConnected num || decide (num = room.players.length)) := by
  rw [isConnected, player?, (players_join free name).1, isConnected, player?]
  rcases Nat.lt_trichotomy num room.players.length with inside | same | beyond
  · rw [List.getElem?_append_left inside, decide_eq_false (Nat.ne_of_lt inside), Bool.or_false]
  · rw [same, List.getElem?_concat_length, decide_eq_true rfl, Bool.or_true]
    rfl
  · rw [List.getElem?_eq_none (Nat.le_of_lt beyond), decide_eq_false (Nat.ne_of_gt beyond),
      List.getElem?_eq_none]
    · rfl
    · rw [List.length_append, List.length_singleton]
      exact beyond

theorem isConnected_leave (room : Conversation) (player num : Nat) :
    (room.leave player).after.isConnected num = (room.isConnected num && !decide (num = player)) := by
  have absent (gone : room.isConnected player = false) :
      room.isConnected num = (room.isConnected num && !decide (num = player)) := by
    by_cases same : num = player
    · rw [same, gone, Bool.false_and]
    · rw [decide_eq_false same, Bool.not_false, Bool.and_true]
  unfold leave
  split
  · rename_i found known
    split
    · rw [isConnected_set known rfl]
      split
      · rename_i same
        rw [decide_eq_true same, Bool.not_true, Bool.and_false]
      · rename_i other
        rw [decide_eq_false other, Bool.not_false, Bool.and_true]
    · rename_i gone
      apply absent
      rw [isConnected, known]
      exact Bool.eq_false_iff.2 gone
  · rename_i unknown
    apply absent
    rw [isConnected, unknown]
    rfl

theorem isConnected_setTyping (room : Conversation) (player : Nat) (typing : Bool) (num : Nat) :
    (room.setTyping player typing).after.isConnected num = room.isConnected num := by
  unfold setTyping
  split
  · rename_i found known
    split
    · rw [changed, isConnected_set known rfl]
      split
      · rename_i same
        rw [same, isConnected, known]
        rfl
      · rfl
    · rfl
  · rfl

def keepsPlayers : Action → Bool
  | .join _ | .leave _ | .typing .. => false
  | .start | .say .. | .shout .. | .expire .. | .turn _ | .move .. => true

theorem players_act {action : Action} (kept : keepsPlayers action = true) (room : Conversation) :
    (room.act action).after.players = room.players := by
  cases action with
  | join | leave | typing => cases kept
  | start => exact players_start room
  | say player text =>
    change (room.say player text).after.players = _
    unfold say
    split <;> rfl
  | shout player now =>
    change (room.beginShout player now).after.players = _
    unfold beginShout
    split <;> rfl
  | expire now duration =>
    change (room.expireShout now duration).after.players = _
    unfold expireShout endShout
    split
    · split
      · split <;> rfl
      · rfl
    · rfl
  | turn player =>
    change (room.turn player).after.players = _
    unfold turn
    split
    · dsimp only
      split
      · exact players_start room
      · exact players_start room
    · rfl
  | move player tile x y =>
    change (room.move player tile x y).after.players = _
    unfold move
    split
    · split
      · dsimp only
        split <;> rfl
      · rfl
    · rfl

theorem isConnected_act {action : Action} (stays : action.stays = true) (room : Conversation) (num : Nat) :
    (room.act action).after.isConnected num = room.isConnected num := by
  cases action with
  | join | leave => cases stays
  | typing player value => exact isConnected_setTyping room player value num
  | start | say | shout | expire | turn | move => exact isConnected_of_players (players_act rfl room) num

theorem players_length_act {action : Action} (other : ∀ name, action ≠ .join name) (room : Conversation) :
    (room.act action).after.players.length = room.players.length := by
  cases action with
  | join name => exact absurd rfl (other name)
  | typing player value =>
    change (room.setTyping player value).after.players.length = _
    unfold setTyping
    split
    · split
      · exact List.length_set
      · rfl
    · rfl
  | leave player =>
    change (room.leave player).after.players.length = _
    unfold leave
    split
    · split
      · exact List.length_set
      · rfl
    · rfl
  | start | say | shout | expire | turn | move => rw [players_act rfl room]

theorem closed_act {room : Conversation} (closed : room.isOpen = false) (action : Action) :
    (room.act action).after.isOpen = false := by
  refine (effect_act room action).preserves (·.isOpen = false) ?_ closed
  intro room after change edit closed
  cases edit with
  | started => rfl
  | joined name free =>
    rw [closed] at free
    cases free
  | typed | left =>
    unfold isOpen isFull at closed ⊢
    rwa [List.length_set]
  | said | shouted | hushed | turned | moved => exact closed

theorem gone_act {room : Conversation} {num : Nat} (inside : num < room.players.length)
    (gone : room.isConnected num = false) (action : Action) :
    (room.act action).after.isConnected num = false := by
  by_cases stays : action.stays = true
  · rw [isConnected_act stays, gone]
  · cases action with
    | join name =>
      change (room.join name).after.isConnected num = false
      by_cases free : room.isOpen = true
      · rw [isConnected_join free, gone, decide_eq_false (Nat.ne_of_lt inside)]
        rfl
      · rw [join, if_neg free]
        exact gone
    | leave player =>
      change (room.leave player).after.isConnected num = false
      rw [isConnected_leave, gone]
      rfl
    | start | say | typing | shout | expire | turn | move => exact absurd rfl stays

end Conversation

end TileRoom
