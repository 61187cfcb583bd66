import TileRoom.Proofs.RoomEdits

/-! What an operation changes in a room. Everything that differs afterwards is named by
one of the changes given out; names and messages stay for good, and tiles stay in the
order they were turned. -/

namespace TileRoom

namespace Conversation

/-- The numbers in a room name what they are meant to name. -/
structure Consistent (room : Conversation) : Prop where
  few : room.players.length ≤ maxPlayers
  numbered : ∀ (num : Nat) (player : Player), room.players[num]? = some player → player.num = num
  senders : ∀ message ∈ room.messages, message.player < room.players.length
  shouting : ∀ player, room.shouter? = some player → player < room.players.length
  laid : ∀ (num : Nat) (tile : Tile), room.tiles[num]? = some tile →
    tile.num = num ∧ ∀ player ∈ tile.lastPlayer, player < room.players.length

/-- What may differ between a room and the room after it gave out some changes. -/
structure Altered (room : Conversation) (changes : List Change) (after : Conversation) : Prop where
  kept : ∀ (num : Nat) (player : Player), room.players[num]? = some player → ∃ later : Player, after.players[num]? = some later ∧
    later.name = player.name ∧ (.player num ∈ changes ∨ later = player)
  joined : ∀ num, room.players.length ≤ num → num < after.players.length → .player num ∈ changes
  messages : room.messages <+: after.messages
  shouted : ∀ num, (room.shouter? = some num ↔ after.shouter? = some num) ∨ .shouting num ∈ changes
  shouters : ∀ num, .shouting num ∈ changes → room.shouter? = some num ∨ after.shouter? = some num
  turned : room.tiles.length ≤ after.tiles.length
  moved : ∀ (num : Nat) (tile : Tile), after.tiles[num]? = some tile →
    room.tiles[num]? = some tile ∨ .tile num ∈ changes

theorem lt_of_isConnected {room : Conversation} {player : Nat}
    (connected : room.isConnected player = true) : player < room.players.length := by
  unfold isConnected player? at connected
  rcases Nat.lt_or_ge player room.players.length with inside | beyond
  · exact inside
  · rw [List.getElem?_eq_none beyond] at connected
    cases connected

theorem consistent_ofBag (bag : List Char) : (ofBag bag).Consistent where
  few := Nat.zero_le _
  numbered := by simp [ofBag]
  senders := by simp [ofBag]
  shouting := by simp [ofBag, shouter?]
  laid := by simp [ofBag]

namespace Altered

variable {room middle after : Conversation} {change : Change} {changes early late : List Change}

theorem players_le (altered : Altered room changes after) :
    room.players.length ≤ after.players.length := by
  rcases Nat.eq_zero_or_pos room.players.length with none | some
  · omega
  · obtain ⟨later, found, _⟩ := altered.kept (room.players.length - 1) _
      (List.getElem?_eq_getElem (by omega))
    have inside := (List.getElem?_eq_some_iff.1 found).1
    omega

theorem quiet (players : after.players = room.players) (messages : room.messages <+: after.messages)
    (shout : after.shout = room.shout) (tiles : after.tiles = room.tiles)
    (silent : ∀ num, .shouting num ∉ changes) : Altered room changes after where
  kept num player found := ⟨player, players ▸ found, rfl, Or.inr rfl⟩
  joined num beyond inside := by
    rw [players] at inside
    exact absurd inside (Nat.not_lt.2 beyond)
  messages := messages
  shouted num := Or.inl (by rw [shouter?, shouter?, shout])
  shouters num known := absurd known (silent num)
  turned := Nat.le_of_eq (congrArg List.length tiles).symm
  moved num tile found := Or.inl (tiles ▸ found)

theorem same (room : Conversation) : Altered room [] room :=
  .quiet rfl (List.prefix_refl _) rfl rfl (by simp)

theorem added (player : Player) :
    Altered room [.player room.players.length] { room with players := room.players ++ [player] } where
  kept num found known := by
    refine ⟨found, ?_, rfl, Or.inr rfl⟩
    rw [List.getElem?_append_left (List.getElem?_eq_some_iff.1 known).1, known]
  joined num beyond inside := by
    rw [List.length_append, List.length_singleton] at inside
    have here : num = room.players.length := by omega
    rw [here]
    exact List.mem_singleton_self _
  messages := List.prefix_refl _
  shouted num := Or.inl Iff.rfl
  shouters num known := by simp at known
  turned := Nat.le_refl _
  moved num tile found := Or.inl found

theorem record {num : Nat} {found : Player} (later : Player) (known : room.players[num]? = some found)
    (name : later.name = found.name) :
    Altered room [.player num] { room with players := room.players.set num later } where
  kept other player inside := by
    have below := (List.getElem?_eq_some_iff.1 known).1
    by_cases here : num = other
    · subst here
      obtain rfl := Option.some.inj (known.symm.trans inside)
      exact ⟨later, List.getElem?_set_self below, name, Or.inl (List.mem_singleton_self _)⟩
    · exact ⟨player, by rw [List.getElem?_set_ne here, inside], rfl, Or.inr rfl⟩
  joined other beyond inside := by
    rw [List.length_set] at inside
    exact absurd inside (Nat.not_lt.2 beyond)
  messages := List.prefix_refl _
  shouted num := Or.inl Iff.rfl
  shouters num known := by simp at known
  turned := Nat.le_refl _
  moved num tile found := Or.inl found

theorem shout (shout : Option Shout) (player : Nat)
    (named : room.shouter? = some player ∨ shout.map (·.player) = some player)
    (only : ∀ num, room.shouter? = some num ∨ shout.map (·.player) = some num → num = player) :
    Altered room [.shouting player] { room with shout } where
  kept num player found := ⟨player, found, rfl, Or.inr rfl⟩
  joined num beyond inside := absurd inside (Nat.not_lt.2 beyond)
  messages := List.prefix_refl _
  shouted num := by
    by_cases here : num = player
    · exact Or.inr (by rw [here]; exact List.mem_singleton_self _)
    · exact Or.inl ⟨fun before => absurd (only num (Or.inl before)) here,
        fun later => absurd (only num (Or.inr later)) here⟩
  shouters num noticed := by
    obtain ⟨rfl⟩ := List.mem_singleton.1 noticed
    exact named
  turned := Nat.le_refl _
  moved num tile found := Or.inl found

theorem tiles {num : Nat} {bag : List Char} {tiles : List Tile} (turned : room.tiles.length ≤ tiles.length)
    (others : ∀ other, num ≠ other → tiles[other]? = room.tiles[other]?) :
    Altered room [.tile num] { room with bag, tiles } where
  kept num player found := ⟨player, found, rfl, Or.inr rfl⟩
  joined num beyond inside := absurd inside (Nat.not_lt.2 beyond)
  messages := List.prefix_refl _
  shouted num := Or.inl Iff.rfl
  shouters num known := by simp at known
  turned := turned
  moved other tile found := by
    by_cases here : num = other
    · exact Or.inr (here ▸ List.mem_singleton_self _)
    · exact Or.inl ((others other here).symm.trans found)

theorem trans (first : Altered room early middle) (second : Altered middle late after)
    (calm : after.shout = middle.shout) : Altered room (early ++ late) after where
  kept num player found := by
    obtain ⟨between, there, name, noticed⟩ := first.kept num player found
    obtain ⟨later, last, same, known⟩ := second.kept num between there
    refine ⟨later, last, same.trans name, ?_⟩
    rcases noticed with early | rfl
    · exact Or.inl (List.mem_append_left _ early)
    · exact known.imp (List.mem_append_right _) id
  joined num beyond inside := by
    rcases Nat.lt_or_ge num middle.players.length with between | later
    · exact List.mem_append_left _ (first.joined num beyond between)
    · exact List.mem_append_right _ (second.joined num later inside)
  messages := first.messages.trans second.messages
  shouted num := by
    have same : after.shouter? = middle.shouter? := by rw [shouter?, shouter?, calm]
    rw [same]
    exact (first.shouted num).imp id (List.mem_append_left _)
  shouters num known := by
    have same : after.shouter? = middle.shouter? := by rw [shouter?, shouter?, calm]
    rcases List.mem_append.1 known with early | late
    · rw [same]
      exact first.shouters num early
    · right
      rcases second.shouters num late with before | later
      · exact same.trans before
      · exact later
  turned := Nat.le_trans first.turned second.turned
  moved num tile found := by
    rcases second.moved num tile found with between | late
    · exact (first.moved num tile between).imp id (List.mem_append_left _)
    · exact Or.inr (List.mem_append_right _ late)

end Altered

theorem Edit.altered {room after : Conversation} {change : Change} (edit : Edit room change after) :
    Altered room [change] after := by
  cases edit with
  | started => exact .quiet rfl (List.prefix_refl _) rfl rfl (by simp)
  | joined => exact .added _
  | said => exact .quiet rfl (List.prefix_append _ _) rfl rfl (by simp)
  | typed _ known => exact .record _ known rfl
  | left known => exact .record _ known rfl
  | @shouted player now _ free =>
    apply Altered.shout (some ⟨player, now⟩) player (Or.inr rfl)
    intro num either
    rcases either with before | later
    · rw [shouter?, free] at before
      cases before
    · exact (Option.some.inj later).symm
  | @hushed shout current =>
    have shouting : room.shouter? = some shout.player := by rw [shouter?, current, Option.map_some]
    apply Altered.shout none shout.player (Or.inl shouting)
    intro num either
    rcases either with before | later
    · exact Option.some.inj (before.symm.trans shouting)
    · cases later
  | turned =>
    apply Altered.tiles
    · rw [List.length_append]
      exact Nat.le_add_right _ _
    · intro other elsewhere
      rcases Nat.lt_or_gt_of_ne elsewhere with beyond | inside
      · rw [List.getElem?_eq_none (Nat.le_of_lt beyond), List.getElem?_eq_none]
        rw [List.length_append, List.length_singleton]
        exact beyond
      · exact List.getElem?_append_left inside
  | moved =>
    apply Altered.tiles
    · exact Nat.le_of_eq List.length_set.symm
    · intro other elsewhere
      exact List.getElem?_set_ne elsewhere

theorem Effect.altered {room after : Conversation} {notices : List Notice}
    (effect : Effect room notices after) : Altered room (notices.map (·.change)) after := by
  cases effect with
  | nothing => exact .same room
  | one edit => exact edit.altered
  | two edit last calm => exact edit.altered.trans last.altered calm

/-- Whatever the operation, what differs afterwards is among its changes. -/
theorem altered_act (room : Conversation) (action : Action) :
    Altered room (room.act action).changes (room.act action).after :=
  (effect_act room action).altered

def Numbered {record : Type} (number : record → Nat) (records : List record) : Prop :=
  ∀ (num : Nat) (found : record), records[num]? = some found → number found = num

theorem numbered_concat {record : Type} {number : record → Nat} {records : List record} {added : record}
    (before : Numbered number records) (last : number added = records.length) :
    Numbered number (records ++ [added]) := fun num found known => by
  by_cases old : num < records.length
  · rw [List.getElem?_append_left old] at known
    exact before num found known
  · have inside := (List.getElem?_eq_some_iff.1 known).1
    rw [List.length_append, List.length_singleton] at inside
    obtain rfl : num = records.length := by omega
    rw [List.getElem?_concat_length] at known
    rw [← Option.some.inj known, last]

theorem numbered_set {record : Type} {number : record → Nat} {records : List record} {place : Nat}
    {later : record} (before : Numbered number records) (same : number later = place) :
    Numbered number (records.set place later) := fun num found known => by
  by_cases here : place = num
  · subst here
    have inside := (List.getElem?_eq_some_iff.1 known).1
    rw [List.length_set] at inside
    rw [List.getElem?_set_self inside] at known
    rw [← Option.some.inj known, same]
  · rw [List.getElem?_set_ne here] at known
    exact before num found known

theorem Consistent.of_length {room after : Conversation} (consistent : room.Consistent)
    (length : after.players.length = room.players.length)
    (numbered : Numbered Player.num after.players)
    (messages : ∀ message ∈ after.messages, message.player < room.players.length)
    (shouting : ∀ player, after.shouter? = some player → player < room.players.length)
    (laid : ∀ (num : Nat) (tile : Tile), after.tiles[num]? = some tile →
      tile.num = num ∧ ∀ player ∈ tile.lastPlayer, player < room.players.length) :
    after.Consistent where
  few := length ▸ consistent.few
  numbered := numbered
  senders := length ▸ messages
  shouting := length ▸ shouting
  laid := length ▸ laid

theorem Edit.consistent {room after : Conversation} {change : Change} (edit : Edit room change after)
    (consistent : room.Consistent) : after.Consistent := by
  cases edit with
  | started =>
    exact consistent.of_length rfl consistent.numbered consistent.senders consistent.shouting
      consistent.laid
  | joined name free =>
    have few : room.players.length < maxPlayers := by
      simp only [isOpen, isFull, Bool.and_eq_true, Bool.not_eq_true', decide_eq_false_iff_not] at free
      omega
    have longer (player : Nat) (inside : player < room.players.length) :
        player < (room.players ++ [({ num := room.players.length, name } : Player)]).length := by
      rw [List.length_append]
      omega
    refine ⟨?_, numbered_concat consistent.numbered rfl,
      fun message member => longer _ (consistent.senders message member),
      fun player shouting => longer _ (consistent.shouting player shouting),
      fun num tile found => ⟨(consistent.laid num tile found).1,
        fun player last => longer _ ((consistent.laid num tile found).2 player last)⟩⟩
    rw [List.length_append, List.length_singleton]
    exact few
  | said text connected =>
    refine consistent.of_length rfl consistent.numbered ?_ consistent.shouting consistent.laid
    intro message member
    rcases List.mem_append.1 member with old | new
    · exact consistent.senders message old
    · rw [List.mem_singleton.1 new]
      exact lt_of_isConnected connected
  | typed _ known | left known =>
    have same := consistent.numbered _ _ known
    exact consistent.of_length (List.length_set ..) (numbered_set consistent.numbered same)
      consistent.senders consistent.shouting consistent.laid
  | shouted now connected =>
    refine consistent.of_length rfl consistent.numbered consistent.senders ?_ consistent.laid
    intro num shouting
    rw [← Option.some.inj shouting]
    exact lt_of_isConnected connected
  | hushed => exact consistent.of_length rfl consistent.numbered consistent.senders nofun consistent.laid
  | turned connected =>
    refine consistent.of_length rfl consistent.numbered consistent.senders consistent.shouting ?_
    intro num tile found
    by_cases old : num < room.tiles.length
    · rw [List.getElem?_append_left old] at found
      exact consistent.laid num tile found
    · have inside := (List.getElem?_eq_some_iff.1 found).1
      rw [List.length_append, List.length_singleton] at inside
      obtain rfl : num = room.tiles.length := by omega
      rw [List.getElem?_concat_length] at found
      rw [← Option.some.inj found]
      refine ⟨rfl, ?_⟩
      intro last same
      rw [← Option.some.inj same]
      exact lt_of_isConnected connected
  | @moved _ place record x y connected known =>
    refine consistent.of_length rfl consistent.numbered consistent.senders consistent.shouting ?_
    intro num tile found
    by_cases same : place = num
    · subst same
      rw [List.getElem?_set_self (List.getElem?_eq_some_iff.1 known).1] at found
      rw [← Option.some.inj found]
      refine ⟨(consistent.laid place record known).1, ?_⟩
      intro last same
      rw [← Option.some.inj same]
      exact lt_of_isConnected connected
    · rw [List.getElem?_set_ne same] at found
      exact consistent.laid num tile found

theorem consistent_act {room : Conversation} (consistent : room.Consistent) (action : Action) :
    (room.act action).after.Consistent :=
  (effect_act room action).preserves _ Edit.consistent consistent

theorem consistent_run {room : Conversation} (consistent : room.Consistent) (actions : List Action) :
    (room.run actions).Consistent :=
  run_preserves _ Edit.consistent room actions consistent

def letters (room : Conversation) : Nat :=
  room.tiles.length + room.bag.length

theorem letters_ofBag (bag : List Char) : (ofBag bag).letters = bag.length := by
  simp [letters, ofBag]

theorem Edit.letters {room after : Conversation} {change : Change} (edit : Edit room change after) :
    after.letters = room.letters := by
  cases edit with
  | started | joined | said | typed | left | shouted | hushed => rfl
  | turned connected begun full =>
    simp only [Conversation.letters, full, List.length_append, List.length_cons, List.length_nil]
    omega
  | moved => rw [Conversation.letters, Conversation.letters, List.length_set]

theorem letters_act (room : Conversation) (action : Action) :
    (room.act action).after.letters = room.letters :=
  (effect_act room action).preserves (fun later => later.letters = room.letters)
    (fun edit same => edit.letters.trans same) rfl

theorem letters_run (room : Conversation) (actions : List Action) :
    (room.run actions).letters = room.letters :=
  run_preserves (fun later => later.letters = room.letters)
    (fun edit same => edit.letters.trans same) room actions rfl

end Conversation

end TileRoom
