import TileRoom.Proofs.Mirroring

/-! The invariant that ties a client's view to its room. Whatever is in the room is shown
by the view of all frames told so far or stands on the agenda of the stream, and this
outlives each frame told and each change of the room. Of shouts the view is right as far
as the stream covers them: those of the players who shouted since it was opened. -/

namespace TileRoom

/-- The view `view` of a client that read all frames told so far, beginning from the view
`before`, next to the room and what is still on the agenda. -/
structure Follows (room : Conversation) (agenda : Agenda) (covered : Nat → Prop) (before view : View) :
    Prop where
  known : view.Known room agenda.player
  self : view.self = some agenda.player
  namedPlayers : agenda.namedPlayers ≤ room.players.length
  names : ∀ (num : Nat) (player : Player), room.players[num]? = some player → num < agenda.namedPlayers →
    ∃ record : PlayerRecord, view.players[num]? = some record ∧ record.name = some (spacedText player.name)
  statuses : ∀ (num : Nat) (player : Player), room.players[num]? = some player →
    ¬agenda.players.contains num = true → ∃ record : PlayerRecord, view.players[num]? = some record ∧
      record.status.contains .connected = player.connected ∧
      record.status.contains .typing = player.typing
  tiles : ∀ (num : Nat) (tile : Tile), room.tiles[num]? = some tile → num < 128 →
    ¬agenda.tiles.contains num = true → view.tile? num = some (tile.laid agenda.player)
  due : ∀ num, agenda.shouts.contains num = true → covered num
  shouting : ∀ num, room.shouter? = some num → covered num
  inside : ∀ num, covered num → num < room.players.length
  told : ∀ num, covered num → ¬agenda.shouts.contains num = true →
    view.showsShout num = decide (room.shouter? = some num)
  kept : ∀ num, ¬covered num → view.showsShout num = before.showsShout num
  shouter : ∀ num, room.shouter? = some num → ¬agenda.shouts.contains num = true →
    view.shouter = some num

theorem Conversation.Consistent.small {room : Conversation} (consistent : room.Consistent) {num : Nat}
    (inside : num < room.players.length) : num < 64 := by
  have few := consistent.few
  simp only [maxPlayers] at few
  omega

theorem WatchStream.shouts_opened {room : Conversation} (consistent : room.Consistent) (id : PersonId)
    (player lastMessage : Nat) (keyHash : Option Key.Hash) (num : Nat) :
    (opened room id player lastMessage keyHash).shouts.contains num = true ↔ room.shouter? = some num := by
  simp only [opened]
  cases shouter : room.shouter? with
  | none => simp [IndexSet.contains_empty]
  | some other =>
    have inside := consistent.small (consistent.shouting other shouter)
    simp only [Option.elim_some, IndexSet.contains_insert_iff, IndexSet.contains_empty,
      Bool.false_eq_true, false_or, Option.some.injEq]
    exact ⟨fun same => same.2.symm, fun same => ⟨inside, same.symm⟩⟩

theorem WatchStream.players_opened {room : Conversation} (consistent : room.Consistent) (id : PersonId)
    (player lastMessage : Nat) (keyHash : Option Key.Hash) {num : Nat} (inside : num < room.players.length) :
    (opened room id player lastMessage keyHash).players.contains num = true :=
  (IndexSet.contains_insertBelow_iff _ _ _).2 (Or.inr ⟨consistent.small inside, inside⟩)

theorem Tells.names {room : Conversation} {agenda later : Agenda} {frame : Frame}
    (tells : Tells room agenda frame later) (consistent : room.Consistent)
    (shouts : ∀ num, agenda.shouts.contains num = true → num < room.players.length) : frame.Names room := by
  cases tells with
  | @name player unnamed =>
    rw [Player.nameFrame, consistent.numbered _ player unnamed]
    exact (List.getElem?_eq_some_iff.1 unnamed).1
  | @status num player found due =>
    rw [Player.statusFrame, consistent.numbered _ player found]
    exact (List.getElem?_eq_some_iff.1 found).1
  | @message message found => exact consistent.senders message (List.mem_of_getElem? found)
  | @shout num due => exact shouts num due
  | @tile num tile found due =>
    obtain ⟨number, players⟩ := consistent.laid num tile found
    rw [Tile.frame, number]
    exact ⟨(List.getElem?_eq_some_iff.1 found).1, IndexSet.contains_lt _ _ due, players⟩
  | farewell => exact trivial

namespace Follows

variable {room after : Conversation} {agenda later : Agenda} {covered : Nat → Prop} {before view : View}

theorem opened (consistent : room.Consistent) (id : PersonId) (player lastMessage : Nat)
    (keyHash : Option Key.Hash) (known : before.Known room player) :
    Follows room (WatchStream.opened room id player lastMessage keyHash).agenda
      (fun num => room.shouter? = some num) before (before.learn (.header player id)) := by
  obtain ⟨learnt, self⟩ := known.learn_header id
  have shouts := WatchStream.shouts_opened consistent id player lastMessage keyHash
  constructor
  case known => exact learnt
  case self => exact self
  case namedPlayers => exact Nat.zero_le _
  case names =>
    intro num player found named
    exact absurd named (Nat.not_lt_zero _)
  case statuses =>
    intro num other found clean
    have inside := (List.getElem?_eq_some_iff.1 found).1
    exact absurd (WatchStream.players_opened consistent id player lastMessage keyHash inside) clean
  case tiles =>
    intro num tile found limit clean
    have inside := (List.getElem?_eq_some_iff.1 found).1
    exact absurd ((IndexSet.contains_insertBelow_iff _ _ _).2 (Or.inr ⟨limit, inside⟩)) clean
  case due =>
    intro num due
    exact (shouts num).1 due
  case shouting =>
    intro num shouter
    exact shouter
  case inside =>
    intro num shouter
    exact consistent.shouting num shouter
  case told =>
    intro num shouter clean
    exact absurd ((shouts num).2 shouter) clean
  case kept =>
    intro num silent
    rfl
  case shouter =>
    intro num shouter clean
    exact absurd ((shouts num).2 shouter) clean

theorem altered {changes : List Change} (follows : Follows room agenda covered before view)
    (right : after.Consistent) (altered : room.Altered changes after)
    (noted : Noted agenda changes later) :
    Follows after later (fun num => covered num ∨ after.shouter? = some num) before view := by
  have players := altered.players_le
  -- Who is not on the agenda now was not on it before, and no change was about their shout.
  have same (num : Nat) (inside : num < after.players.length) (clean : ¬later.shouts.contains num = true) :
      ¬agenda.shouts.contains num = true ∧ (room.shouter? = some num ↔ after.shouter? = some num) := by
    rw [noted.shouts, not_or] at clean
    exact ⟨clean.1, (altered.shouted num).resolve_right fun change => clean.2 ⟨right.small inside, change⟩⟩
  have within (num : Nat) (either : covered num ∨ after.shouter? = some num) : num < after.players.length :=
    either.elim (fun known => Nat.lt_of_lt_of_le (follows.inside num known) players) (right.shouting num)
  constructor
  case known => exact noted.player ▸ follows.known.mono players altered.turned
  case self => exact noted.player ▸ follows.self
  case namedPlayers =>
    rw [noted.namedPlayers]
    exact Nat.le_trans follows.namedPlayers players
  case names =>
    intro num player found named
    rw [noted.namedPlayers] at named
    have inside := Nat.lt_of_lt_of_le named follows.namedPlayers
    have there := List.getElem?_eq_getElem inside
    obtain ⟨next, found', name, _⟩ := altered.kept num _ there
    obtain rfl := Option.some.inj (found.symm.trans found')
    rw [name]
    exact follows.names num _ there named
  case statuses =>
    intro num player found clean
    rw [noted.players, not_or] at clean
    have here := (List.getElem?_eq_some_iff.1 found).1
    have silent : .player num ∉ changes := fun change => clean.2 ⟨right.small here, change⟩
    rcases Nat.lt_or_ge num room.players.length with inside | beyond
    · have there := List.getElem?_eq_getElem inside
      obtain ⟨next, found', _, either⟩ := altered.kept num _ there
      obtain rfl := Option.some.inj (found.symm.trans found')
      rw [either.resolve_left silent]
      exact follows.statuses num _ there clean.1
    · exact absurd (altered.joined num beyond here) silent
  case tiles =>
    intro num tile found limit clean
    rw [noted.tiles, not_or] at clean
    rw [noted.player]
    have there := (altered.moved num tile found).resolve_right fun change => clean.2 ⟨limit, change⟩
    exact follows.tiles num tile there limit clean.1
  case due =>
    intro num due
    rcases (noted.shouts num).1 due with known | ⟨_, change⟩
    · exact Or.inl (follows.due num known)
    · exact (altered.shouters num change).imp (follows.shouting num) id
  case shouting =>
    intro num shouter
    exact Or.inr shouter
  case inside => exact within
  case told =>
    intro num either clean
    obtain ⟨unchanged, iff⟩ := same num (within num either) clean
    have known := either.elim id fun shouter => follows.shouting num (iff.2 shouter)
    rw [follows.told num known unchanged, decide_eq_decide]
    exact iff
  case kept =>
    intro num neither
    exact follows.kept num fun known => neither (Or.inl known)
  case shouter =>
    intro num shouter clean
    obtain ⟨unchanged, iff⟩ := same num (right.shouting num shouter) clean
    exact follows.shouter num (iff.2 shouter) unchanged

theorem record (follows : Follows room agenda covered before view) (consistent : room.Consistent)
    {num : Nat} (inside : num < room.players.length) : ∃ old, view.players[num]? = some old := by
  have visible : num < view.players.length := by
    rw [follows.known.records]
    exact Nat.lt_of_lt_of_le inside consistent.few
  exact ⟨_, List.getElem?_eq_getElem visible⟩

theorem updated (follows : Follows room agenda covered before view) (num : Nat)
    (f : PlayerRecord → PlayerRecord) (inside : num < room.players.length)
    (same : ∀ record, (f record).status.contains .shouting = record.status.contains .shouting)
    (rest : later.player = agenda.player ∧ later.shouts = agenda.shouts ∧ later.tiles = agenda.tiles)
    (namedPlayers : later.namedPlayers ≤ room.players.length)
    (names : ∀ (other : Nat) (player : Player), room.players[other]? = some player →
      other < later.namedPlayers → ∃ record : PlayerRecord,
        (view.updatePlayer num f).players[other]? = some record ∧
          record.name = some (spacedText player.name))
    (statuses : ∀ (other : Nat) (player : Player), room.players[other]? = some player →
      ¬later.players.contains other = true → ∃ record : PlayerRecord,
        (view.updatePlayer num f).players[other]? = some record ∧
          record.status.contains .connected = player.connected ∧
          record.status.contains .typing = player.typing) :
    Follows room later covered before (view.updatePlayer num f) := by
  obtain ⟨player, shouts, tiles⟩ := rest
  have known := follows.known.updatePlayer num f inside same
  have shows (other : Nat) : (view.updatePlayer num f).showsShout other = view.showsShout other :=
    View.showsShout_updatePlayer view num other f same
  exact {
    known := player ▸ known
    self := player ▸ follows.self
    namedPlayers, names, statuses
    tiles := by rw [player, tiles]; exact follows.tiles
    due := by rw [shouts]; exact follows.due
    shouting := follows.shouting
    inside := follows.inside
    told := fun other known => by rw [shouts, shows]; exact follows.told other known
    kept := fun other unknown => by rw [shows]; exact follows.kept other unknown
    shouter := by rw [shouts]; exact follows.shouter }

theorem told_name (follows : Follows room agenda covered before view) (consistent : room.Consistent)
    {player : Player} (unnamed : room.players[agenda.namedPlayers]? = some player) :
    Follows room { agenda with namedPlayers := agenda.namedPlayers + 1 } covered before
      (view.updatePlayer agenda.namedPlayers ({ · with name := some (spacedText player.name) })) := by
  have inside := (List.getElem?_eq_some_iff.1 unnamed).1
  refine follows.updated _ _ inside (fun _ => rfl) ⟨rfl, rfl, rfl⟩ inside ?_ ?_
  · intro other shown found named
    rw [View.getElem?_updatePlayer]
    by_cases here : agenda.namedPlayers = other
    · subst here
      obtain ⟨old, there⟩ := follows.record consistent inside
      obtain rfl := Option.some.inj (unnamed.symm.trans found)
      exact ⟨_, by rw [there, Option.map_some, if_pos rfl], rfl⟩
    · obtain ⟨old, there, name⟩ := follows.names other shown found (by simp only at named; omega)
      exact ⟨old, by rw [there, Option.map_some, if_neg here], name⟩
  · intro other shown found clean
    obtain ⟨old, there, status⟩ := follows.statuses other shown found clean
    rw [View.getElem?_updatePlayer, there, Option.map_some]
    refine ⟨_, rfl, ?_⟩
    split <;> exact status

theorem told_status (follows : Follows room agenda covered before view) (consistent : room.Consistent)
    {num : Nat} {player : Player} (told : room.players[num]? = some player) :
    Follows room { agenda with players := agenda.players.erase num } covered before
      (view.learn (.player num player.connected player.typing)) := by
  have inside := (List.getElem?_eq_some_iff.1 told).1
  refine follows.updated _ _ inside
    (fun record => (Status.contains_told record.status player.connected player.typing).2.2)
    ⟨rfl, rfl, rfl⟩ follows.namedPlayers ?_ ?_
  · intro other shown found named
    obtain ⟨old, there, name⟩ := follows.names other shown found named
    rw [View.getElem?_updatePlayer, there, Option.map_some]
    refine ⟨_, rfl, ?_⟩
    split <;> exact name
  · intro other shown found clean
    rw [View.getElem?_updatePlayer]
    by_cases here : num = other
    · subst here
      obtain ⟨old, there⟩ := follows.record consistent inside
      obtain rfl := Option.some.inj (told.symm.trans found)
      have status := Status.contains_told old.status player.connected player.typing
      exact ⟨_, by rw [there, Option.map_some, if_pos rfl], status.1, status.2.1⟩
    · have clean : ¬agenda.players.contains other = true := fun due =>
        clean ((IndexSet.contains_erase_iff _ _ _).2 ⟨due, Ne.symm here⟩)
      obtain ⟨old, there, status⟩ := follows.statuses other shown found clean
      exact ⟨old, by rw [there, Option.map_some, if_neg here], status⟩

theorem told_shout (follows : Follows room agenda covered before view) (consistent : room.Consistent)
    {num : Nat} (due : agenda.shouts.contains num = true) :
    Follows room { agenda with shouts := agenda.shouts.erase num } covered before
      (view.setShouting num (room.shouter? = some num)) := by
  have covers := follows.due num due
  have inside := follows.inside num covers
  obtain ⟨selves, tiles, shouter, shout, players⟩ := View.setShouting_fields view num (room.shouter? = some num)
  have erased (other : Nat) (clean : ¬(agenda.shouts.erase num).contains other = true)
      (different : num ≠ other) : ¬agenda.shouts.contains other = true := fun due =>
    clean ((IndexSet.contains_erase_iff _ _ _).2 ⟨due, Ne.symm different⟩)
  have shows (other : Nat) := View.showsShout_setShouting view num other (room.shouter? = some num)
  have there : (view.players[num]?).isSome = true := by
    obtain ⟨old, found⟩ := follows.record consistent inside
    rw [found]
    rfl
  constructor
  case known =>
    exact follows.known.setShouting follows.self num _ inside (Nat.lt_of_lt_of_le inside consistent.few)
  case self => exact selves.trans follows.self
  case namedPlayers => exact follows.namedPlayers
  case names =>
    intro other player found named
    obtain ⟨old, found, name⟩ := follows.names other player found named
    rw [players, View.getElem?_updatePlayer, found, Option.map_some]
    refine ⟨_, rfl, ?_⟩
    split <;> exact name
  case statuses =>
    intro other player found clean
    obtain ⟨old, found, status⟩ := follows.statuses other player found clean
    rw [players, View.getElem?_updatePlayer, found, Option.map_some]
    refine ⟨_, rfl, ?_⟩
    have put := (Status.contains_put_shouting old.status (room.shouter? = some num)).2
    split
    · exact ⟨put.1.trans status.1, put.2.trans status.2⟩
    · exact status
  case tiles =>
    rw [tiles]
    exact follows.tiles
  case due =>
    intro other due
    exact follows.due other ((IndexSet.contains_erase_iff _ _ _).1 due).1
  case shouting => exact follows.shouting
  case inside => exact follows.inside
  case told =>
    intro other known clean
    rw [shows]
    by_cases here : num = other
    · subst here
      rw [if_pos rfl, there, Bool.true_and]
    · rw [if_neg here]
      exact follows.told other known (erased other clean here)
  case kept =>
    intro other unknown
    have different : num ≠ other := fun here => unknown (here ▸ covers)
    rw [shows, if_neg different]
    exact follows.kept other unknown
  case shouter =>
    intro other shouts clean
    rw [shouter]
    by_cases here : num = other
    · subst here
      rw [if_pos (decide_eq_true shouts)]
    · have silent : ¬room.shouter? = some num := fun same =>
        here (Option.some.inj (same.symm.trans shouts))
      have current := follows.shouter other shouts (erased other clean here)
      rw [if_neg (by rw [decide_eq_true_eq]; exact silent), current,
        if_neg fun same => here (Option.some.inj same).symm]

theorem told_tile (follows : Follows room agenda covered before view)
    {num : Nat} {tile : Tile} (told : room.tiles[num]? = some tile) (limit : num < 128) :
    Follows room { agenda with tiles := agenda.tiles.erase num } covered before
      (view.setTile num (tile.laid agenda.player)) := by
  have inside := (List.getElem?_eq_some_iff.1 told).1
  rw [View.setTile, if_pos limit]
  refine { follows with known := { follows.known with beyond := ?_ }, tiles := ?_ }
  · intro other outside
    simp only
    rw [if_neg (by omega)]
    exact follows.known.beyond other outside
  · intro other laid found below clean
    simp only
    by_cases here : other = num
    · subst here
      rw [if_pos rfl, Option.some.inj (told.symm.trans found)]
    · rw [if_neg here]
      exact follows.tiles other laid found below fun due =>
        clean ((IndexSet.contains_erase_iff _ _ _).2 ⟨due, here⟩)

theorem tells {frame : Frame} (follows : Follows room agenda covered before view)
    (consistent : room.Consistent) (tells : Tells room agenda frame later) :
    frame.Names room ∧ Follows room later covered before (view.learn frame.received) := by
  refine ⟨tells.names consistent fun num due => follows.inside num (follows.due num due), ?_⟩
  cases tells with
  | @name player unnamed =>
    rw [Player.nameFrame, consistent.numbered _ player unnamed]
    exact follows.told_name consistent unnamed
  | @status num player found due =>
    rw [Player.statusFrame, consistent.numbered _ player found]
    exact follows.told_status consistent found
  | @message message found => exact { follows with }
  | @shout num due => exact follows.told_shout consistent due
  | @tile num tile found due =>
    rw [Tile.frame, (consistent.laid num tile found).1]
    have moved : (tile.lastPlayer.isSome && decide (tile.lastPlayer = view.self)) =
        decide (tile.lastPlayer = some agenda.player) := by
      rw [follows.self]
      cases tile.lastPlayer <;> rfl
    change Follows room _ covered before (view.setTile num ⟨tile.x, tile.y, Json.spaced tile.letter, _⟩)
    rw [moved]
    exact follows.told_tile found (IndexSet.contains_lt _ _ due)
  | farewell gone => exact follows

theorem recites {frames : List Frame} (follows : Follows room agenda covered before view)
    (consistent : room.Consistent) (recites : Recites room agenda frames later) :
    (∀ frame ∈ frames, frame.Names room) ∧
      Follows room later covered before ((frames.map Frame.received).foldl View.learn view) := by
  induction recites generalizing view with
  | nil => exact ⟨by simp, follows⟩
  | cons tells _ ih =>
    obtain ⟨names, next⟩ := follows.tells consistent tells
    obtain ⟨others, last⟩ := ih next
    exact ⟨List.forall_mem_cons.2 ⟨names, others⟩, last⟩

theorem mirrors {stream : WatchStream} (follows : Follows room stream.agenda covered before view)
    (drained : stream.Drained room) (few : room.tiles.length ≤ 128) : view.Mirrors room stream.player where
  self := follows.self
  players num player found := by
    have inside := (List.getElem?_eq_some_iff.1 found).1
    obtain ⟨named, there, name⟩ := follows.names num player found (Nat.lt_of_lt_of_le inside drained.named)
    obtain ⟨record, here, status⟩ := follows.statuses num player found (drained.players num inside)
    obtain rfl := Option.some.inj (there.symm.trans here)
    exact ⟨named, there, name, status⟩
  nobody := follows.known.nobody
  tiles num := by
    cases found : room.tiles[num]? with
    | none =>
      rw [Option.map_none]
      exact follows.known.beyond num (List.getElem?_eq_none_iff.1 found)
    | some tile =>
      have inside := (List.getElem?_eq_some_iff.1 found).1
      exact follows.tiles num tile found (by omega) (drained.tiles num inside)

/-- With nothing left on the agenda, the view shows who shouts, unless it began with a shout that no
stream told the end of. -/
theorem mirrorsShout {stream : WatchStream} (follows : Follows room stream.agenda covered before view)
    (drained : stream.Drained room) :
    view.MirrorsShout room stream.player ↔
      ∀ num, before.showsShout num = true → covered num := by
  have shows (num : Nat) (known : covered num) := follows.told num known (drained.shouts num)
  constructor
  · intro mirrors num stale
    refine Classical.byContradiction fun unknown => unknown (follows.shouting num ?_)
    have shown := mirrors.players num
    rw [follows.kept num unknown, stale] at shown
    exact of_decide_eq_true shown.symm
  · intro fresh
    have players (num : Nat) : view.showsShout num = decide (room.shouter? = some num) := by
      by_cases known : covered num
      · exact shows num known
      · rw [follows.kept num known, decide_eq_false fun shouting => known (follows.shouting num shouting)]
        exact Bool.eq_false_iff.2 fun stale => known (fresh num stale)
    have shouter : view.shouter = room.shouter? := by
      cases shouting : room.shouter? with
      | some num => exact follows.shouter num shouting (drained.shouts num)
      | none =>
        cases shown : view.shouter with
        | none => rfl
        | some num =>
          have wrong := follows.known.shown num shown
          rw [players, shouting] at wrong
          cases wrong
    refine ⟨players, shouter, ?_⟩
    rw [follows.known.shout, shouter, follows.self]
    rfl

end Follows

end TileRoom
