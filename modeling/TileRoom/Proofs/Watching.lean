import TileRoom.Proofs.Applying
import TileRoom.Proofs.Broadcasting

/-! A client that watches a room from the start. Operations and reads follow each other in
any order; whenever the stream has nothing to say, a client that received all of it shows
the room as it is. -/

namespace TileRoom

inductive WatchStep where
  | act (action : Action)
  | read (size : Nat)

namespace Room

variable {room : Room} {watch : WatchId} {airing : Airing} {covered : Nat → Prop} {frames : List Frame}
  {written : Bytes}

def proceed (room : Room) (watch : WatchId) : List WatchStep → Bytes × Room
  | [] => ([], room)
  | .act action :: rest => (room.act action).2.proceed watch rest
  | .read size :: rest =>
      let (bytes, room) := room.read watch size
      let (more, room) := room.proceed watch rest
      (bytes ++ more, room)

theorem Broadcasts.proceed (broadcasts : room.Broadcasts watch airing covered frames written)
    (steps : List WatchStep) :
    ∃ covered more, (room.proceed watch steps).2.Broadcasts watch airing covered (frames ++ more)
      (written ++ (room.proceed watch steps).1) := by
  induction steps generalizing room covered frames written with
  | nil =>
    refine ⟨covered, [], ?_⟩
    rw [List.append_nil]
    exact (List.append_nil written).symm ▸ broadcasts
  | cons step rest ih =>
    cases step with
    | act action =>
      have turns : room.Turns (fun _ => True) (room.act action).2 :=
        turns_act broadcasts.wired broadcasts.consistent action
      exact ih (broadcasts.turns turns trivial)
    | read size =>
      obtain ⟨more, next⟩ := broadcasts.read size
      obtain ⟨covers, others, last⟩ := ih next
      rw [List.append_assoc, List.append_assoc] at last
      exact ⟨covers, more ++ others, last⟩

theorem letters_proceed (room : Room) (watch : WatchId) (steps : List WatchStep) :
    (room.proceed watch steps).2.conversation.letters = room.conversation.letters := by
  induction steps generalizing room with
  | nil => rfl
  | cons step rest ih =>
    cases step with
    | act action =>
      rw [proceed, ih, conversation_act, Conversation.letters_act]
    | read size =>
      calc
        ((room.read watch size).2.proceed watch rest).2.conversation.letters =
            (room.read watch size).2.conversation.letters := ih _
        _ = room.conversation.letters := by rw [conversation_read]

end Room

/-- All of a drained stream, in any pieces, is read if and only if the room can be sent;
then every frame told was heard. -/
theorem Connection.receiveAll_drained {airing : Airing} {room : Conversation} {stream : WatchStream}
    {covered : Nat → Prop} {frames : List Frame} {written : Bytes}
    (airs : Airs airing room stream covered frames written) (consistent : room.Consistent)
    (drained : stream.Drained room) (new : airing.first = 0) {pieces : List Bytes}
    (whole : pieces.flatten = written) (connection : Connection) :
    let base := (connection.beginStream airing.key).connection
    ((base.receiveAll pieces).1 = .ok () ↔ room.Sendable) ∧
      ((base.receiveAll pieces).1 = .ok () → Reads base (airing.header :: frames.map Frame.received)
        (base.receiveAll pieces).2.connection (base.receiveAll pieces).2.events) := by
  have begun := listens_beginStream connection airing.key
  generalize (connection.beginStream airing.key).connection = base at begun ⊢
  have heard (read : (base.receiveAll pieces).1 = .ok ()) :
      Reads base (airing.header :: frames.map Frame.received) (base.receiveAll pieces).2.connection
          (base.receiveAll pieces).2.events ∧
        ∀ frame ∈ frames, ChunkReader.Fits frame.payload := by
    obtain ⟨got, listens⟩ := begun.receiveAll read
    rw [List.nil_append, List.nil_append, List.nil_append, whole] at listens
    exact airs.heard_all consistent drained listens
  refine ⟨⟨?_, ?_⟩, fun read => (heard read).1⟩
  · intro read
    apply airs.sendable drained (heard read).2
    intro message known
    rw [new, List.take_zero] at known
    cases known
  · intro sendable
    apply begun.receiveAll_ok
    intro data part
    rw [List.nil_append, whole] at part
    exact airs.accepted consistent (airs.fits consistent sendable) part

namespace Session

variable {label : Type}

theorem view_receiveAll (roomName name key : String) (pieces : List Bytes) {frames : List Frame}
    (reads : ∀ base, base = (Connection.beginStream { room := roomName, name } key).connection →
      Reads base frames (base.receiveAll pieces).2.connection (base.receiveAll pieces).2.events) :
    ∃ game, (((ofNames roomName name : Session label).beginStream key).receiveAll pieces).2.flush.after.game =
        some game ∧ game.model.view = frames.foldl View.learn {} := by
  have connection : ((ofNames roomName name : Session label).beginStream key).connection =
      (Connection.beginStream { room := roomName, name } key).connection :=
    connection_hear _ _
  obtain ⟨_, _, game, there, model⟩ := (((applies_ofNames roomName name).hear _).hear
    ((Connection.beginStream { room := roomName, name } key).connection.receiveAll pieces).2).flush
  refine ⟨game, ?_, ?_⟩
  · unfold Session.receiveAll
    rw [connection]
    exact there
  · rw [model, view_of_public _ _ TileArena.sound_empty, Model.view_nothing, List.nil_append,
      List.foldl_append, (Connection.reads_beginStream _ _).view, (reads _ rfl).view]
    rfl

end Session

namespace Room

variable {room : Room} {watch : WatchId} {airing : Airing} {covered : Nat → Prop} {frames : List Frame}
  {written : Bytes}

theorem exists_drained_watch (room : Room) (id : PersonId) (player lastMessage : Nat)
    (keyHash : Option Key.Hash) (present : room.conversation.isConnected player = true) :
    let opened := room.watch id player lastMessage keyHash
    ∃ size, (opened.2.proceed opened.1 [.read size]).2.isDrained opened.1 = true ∧
      (opened.2.proceed opened.1 [.read size]).2.conversation = room.conversation := by
  have found : (room.watch id player lastMessage keyHash).2.stream? room.nextWatch =
      some (.opened room.conversation id player lastMessage keyHash) := by
    rw [stream?_watch, if_pos rfl]
  have ongoing : (WatchStream.opened room.conversation id player lastMessage keyHash).phase = .head := rfl
  obtain ⟨size, _, unfinished, idle⟩ := WatchStream.exists_drained room.conversation
    (.opened room.conversation id player lastMessage keyHash) present (by rw [ongoing]; decide)
  obtain ⟨_, next, same⟩ := read_some found size
  have conversation : (room.watch id player lastMessage keyHash).2.conversation = room.conversation := rfl
  rw [conversation] at next same
  refine ⟨size, ?_, same⟩
  change ((room.watch id player lastMessage keyHash).2.read room.nextWatch size).2.isDrained
    room.nextWatch = true
  rw [isDrained, next, same, Option.any_some, unfinished, idle]
  rfl

theorem Broadcasts.mirrored (label : Type) (broadcasts : room.Broadcasts watch airing covered frames written)
    (new : airing.first = 0 ∧ airing.before = {}) (drained : room.isDrained watch = true)
    (few : room.conversation.tiles.length ≤ 128) {pieces : List Bytes} (whole : pieces.flatten = written)
    (roomName name : String) :
    let received := ((Session.ofNames roomName name : Session label).beginStream airing.key).receiveAll pieces
    (received.1 = .ok () ↔ room.conversation.Sendable) ∧
      (room.conversation.Sendable → ∃ game, received.2.flush.after.game = some game ∧
        game.model.view.Mirrors room.conversation airing.player ∧
        game.model.view.MirrorsShout room.conversation airing.player) := by
  obtain ⟨stream, found, airs⟩ := broadcasts.airs
  have idle := drained_of_isDrained found drained
  obtain ⟨mirrors, shout⟩ := airs.mirrored idle few
  obtain ⟨accepted, reads⟩ := Connection.receiveAll_drained airs broadcasts.consistent idle new.1 whole
    { room := roomName, name }
  have read : (((Session.ofNames roomName name : Session label).beginStream airing.key).receiveAll pieces).1 =
      ((Connection.beginStream { room := roomName, name } airing.key).connection.receiveAll pieces).1 := by
    unfold Session.receiveAll
    rw [show ((Session.ofNames roomName name : Session label).beginStream airing.key).connection =
      (Connection.beginStream { room := roomName, name } airing.key).connection from
        Session.connection_hear _ _]
  simp only [read]
  refine ⟨accepted, ?_⟩
  intro sendable
  obtain ⟨game, there, view⟩ := @Session.view_receiveAll label roomName name airing.key pieces _
    fun base same => same ▸ reads (accepted.2 sendable)
  have shown : game.model.view = airing.shown frames := by
    rw [view, Airing.shown, new.2]
    rfl
  refine ⟨game, there, ?_, ?_⟩
  · rw [shown]
    exact mirrors
  · rw [shown]
    apply shout.2
    intro num shows
    rw [new.2, View.showsShout_nothing] at shows
    cases shows

end Room

/-- A drained stream shows its room. Whatever happened in the room before, and whatever
operations and reads followed each other since, a new client that was given all bytes in
any pieces has read them, unless a name or a message does not fit a chunk, and its game
shows the players, the shout and the tiles as they are now. -/
theorem drained_mirrors {label : Type} (bag : List Char) (few : bag.length ≤ 128) (earlier : List Action)
    (id : PersonId) (player : Nat) (inside : player < ((Conversation.ofBag bag).run earlier).players.length)
    (key : String) (steps : List WatchStep) (roomName name : String) (pieces : List Bytes) :
    let opened := ({ conversation := (Conversation.ofBag bag).run earlier } : Room).watch id player 0
      (some (Key.hash key))
    let sent := (opened.2.proceed opened.1 steps).1
    let room := (opened.2.proceed opened.1 steps).2
    let received := ((Session.ofNames roomName name : Session label).beginStream key).receiveAll pieces
    room.isDrained opened.1 = true → pieces.flatten = sent →
      (received.1 = .ok () ↔ room.conversation.Sendable) ∧
      (room.conversation.Sendable → ∃ game, received.2.flush.after.game = some game ∧
        game.model.view.Mirrors room.conversation player ∧
        game.model.view.MirrorsShout room.conversation player) := by
  intro opened sent room received drained whole
  have begun := Room.broadcasts_watch ⟨key, id, player, 0, {}⟩
    (Room.wired_ofConversation ((Conversation.ofBag bag).run earlier))
    (Conversation.consistent_run (Conversation.consistent_ofBag bag) earlier) inside (Nat.zero_le _)
    (View.known_nothing _ player)
  obtain ⟨covered, frames, broadcasts⟩ := begun.proceed steps
  have letters : (opened.2.proceed opened.1 steps).2.conversation.letters = bag.length := by
    rw [Room.letters_proceed]
    exact (Conversation.letters_run _ _).trans (Conversation.letters_ofBag bag)
  have laid : (opened.2.proceed opened.1 steps).2.conversation.tiles.length ≤ 128 := by
    unfold Conversation.letters at letters
    omega
  exact broadcasts.mirrored label ⟨rfl, rfl⟩ drained laid whole roomName name

/-- Two players, a tile, a message and a shout, seen by the first of them. -/
theorem drained_mirrors_two_players :
    let conversation := (Conversation.ofBag ['A', 'B']).run
      [.join "ann", .join "bob", .turn 0, .say 1 "hi", .shout 1 5]
    let opened := ({ conversation } : Room).watch 7 0 0 (some (Key.hash "key"))
    ∃ size, let sent := (opened.2.proceed opened.1 [.read size]).1
      let room := (opened.2.proceed opened.1 [.read size]).2
      let received := ((Session.ofNames "lobby" "ann" : Session Nat).beginStream "key").receiveAll [sent]
      room.isDrained opened.1 = true ∧ received.1 = .ok () ∧ ∃ game, received.2.flush.after.game = some game ∧
        game.model.view.Mirrors room.conversation 0 ∧ game.model.view.MirrorsShout room.conversation 0 := by
  have sendable : ((Conversation.ofBag ['A', 'B']).run
    [.join "ann", .join "bob", .turn 0, .say 1 "hi", .shout 1 5]).Sendable := by decide +kernel
  intro conversation opened
  obtain ⟨size, drained, same⟩ :=
    Room.exists_drained_watch { conversation } 7 0 0 (some (Key.hash "key")) rfl
  obtain ⟨accepted, shown⟩ := @drained_mirrors Nat ['A', 'B'] (by decide)
    [.join "ann", .join "bob", .turn 0, .say 1 "hi", .shout 1 5] 7 0 (by decide) "key" [.read size] "lobby"
    "ann" [(opened.2.proceed opened.1 [.read size]).1] drained (List.append_nil _)
  have sent : (opened.2.proceed opened.1 [.read size]).2.conversation.Sendable := by
    rw [same]
    exact sendable
  exact ⟨size, drained, accepted.2 sent, shown sent⟩

/-- A tab in a name is not shown as it is. -/
theorem tab_in_name_not_mirrored :
    let conversation := (Conversation.ofBag []).run [.join "a\tb"]
    let opened := ({ conversation } : Room).watch 7 0 0 (some (Key.hash "key"))
    ∃ size, let sent := (opened.2.proceed opened.1 [.read size]).1
      let room := (opened.2.proceed opened.1 [.read size]).2
      let received := ((Session.ofNames "lobby" "ann" : Session Nat).beginStream "key").receiveAll [sent]
      room.isDrained opened.1 = true ∧ received.1 = .ok () ∧
        (room.conversation.player? 0).map (·.name) = some "a\tb" ∧
        ∃ game, received.2.flush.after.game = some game ∧
          (game.model.player? 0).map (·.name) = some (some "a b") := by
  have sendable : ((Conversation.ofBag []).run [.join "a\tb"]).Sendable := by decide +kernel
  have spaced : spacedText "a\tb" = "a b" := by decide +kernel
  intro conversation opened
  obtain ⟨size, drained, same⟩ :=
    Room.exists_drained_watch { conversation } 7 0 0 (some (Key.hash "key")) rfl
  have sent : (opened.2.proceed opened.1 [.read size]).2.conversation.Sendable := by
    rw [same]
    exact sendable
  have player : (opened.2.proceed opened.1 [.read size]).2.conversation.players[0]? =
      some ⟨0, "a\tb", true, false⟩ := by
    rw [same]
    rfl
  have few : (opened.2.proceed opened.1 [.read size]).2.conversation.tiles.length ≤ 128 := by
    rw [same]
    exact Nat.zero_le _
  have whole : [(opened.2.proceed opened.1 [.read size]).1].flatten =
      (opened.2.proceed opened.1 [.read size]).1 := List.append_nil _
  have begun := Room.broadcasts_watch ⟨"key", 7, 0, 0, {}⟩
    (Room.wired_ofConversation conversation)
    (Conversation.consistent_run (Conversation.consistent_ofBag []) [.join "a\tb"]) Nat.one_pos
    (Nat.zero_le _) (View.known_nothing _ 0)
  obtain ⟨covered, frames, broadcasts⟩ := begun.proceed [.read size]
  obtain ⟨accepted, shown⟩ := broadcasts.mirrored Nat ⟨rfl, rfl⟩ drained
    few whole "lobby" "ann"
  obtain ⟨game, there, mirrors, _⟩ := shown sent
  obtain ⟨record, found, name, _⟩ := mirrors.players 0 _ player
  refine ⟨size, drained, accepted.2 sent, ?_, game, there, ?_⟩
  · rw [Conversation.player?, player]
    rfl
  · change (game.model.view.players[0]?).map _ = _
    rw [found, Option.map_some, name, spaced]

end TileRoom
