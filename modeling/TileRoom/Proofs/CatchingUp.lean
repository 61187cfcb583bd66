import TileRoom.Proofs.VisitRuns

/-! A client that asks for a stream catches up with its room: as long as its player is
there and the room can be sent, one read and one delivery tell it all. -/

namespace TileRoom

namespace Visit

variable {label : Type} {visit : Visit label} {home : RoomNum} {watch : WatchId} {airing : Airing}
  {covered : Nat → Prop} {base : Connection} {earlier : List Event}

def shown (visit : Visit label) : View :=
  (visit.session.flush.after.game.map (·.model.view)).getD {}

theorem Sound.shown_eq (sound : visit.Sound) : visit.shown = visit.heard.foldl View.see {} := by
  obtain ⟨_, _, game, there, model⟩ := sound.applies.flush
  rw [shown, there, Option.map_some, Option.getD_some, model,
    Session.view_of_public _ _ TileArena.sound_empty, Model.view_nothing]

theorem Sound.few (sound : visit.Sound) {room : Room} (there : visit.registry.lobby.room? home = some room) :
    room.conversation.tiles.length ≤ 128 := by
  have letters := sound.registry.letters home room there
  unfold Conversation.letters tileCount at letters
  omega

theorem isWatching_iff : visit.isWatching = true ↔
    ∃ num watch, visit.answering.map (·.response) = some (.stream num watch) := by
  unfold isWatching
  split
  · rename_i num watch _ answering
    rw [answering]
    exact ⟨fun _ => ⟨num, watch, rfl⟩, fun _ => rfl⟩
  · rename_i other
    refine ⟨nofun, ?_⟩
    rintro ⟨num, watch, response⟩
    obtain ⟨⟨_, watching⟩, answering, rfl⟩ := Option.map_eq_some_iff.1 response
    exact absurd answering (other num watch watching)

theorem attach_granted (sound : visit.Sound) {id : PersonId}
    (known : visit.session.connection.id = some id)
    (fits : visit.session.connection.nextMessage < UInt64.size) (key : String) (remote : Address) (now : Nat)
    (draw : Draw) : (visit.attach key remote now draw).isWatching = true := by
  obtain ⟨person, _, found, _⟩ := sound.knows.somebody id known
  obtain ⟨either, _⟩ := Registry.answer_watchPerson (fun _ _ => True) sound.registry id
    visit.session.connection.nextMessage (some (Key.hash key)) remote now draw
  have request : visit.session.connection.watchRequest =
      .watchPerson id visit.session.connection.nextMessage := by
    rw [Connection.watchRequest, known]
  have served : visit.registry.route (String.ofList visit.session.connection.watchRequest.target)
      (some (Key.hash key)) remote now draw = visit.registry.answer
        (.watchPerson id visit.session.connection.nextMessage) (some (Key.hash key)) remote now draw := by
    rw [Registry.route, request, Request.parse_watchPerson, if_pos fits]
  rw [attach_eq served, isWatching_iff]
  rcases either with ⟨none, _⟩ | ⟨other, room, _, granted⟩
  · cases found.symm.trans none
  · exact ⟨_, _, congrArg some granted.response⟩

theorem isWatching_of_isDrained (drained : visit.isDrained = true) : visit.isWatching = true := by
  unfold isDrained at drained
  unfold isWatching
  split at drained
  · rfl
  · cases drained

/-- A client that knows its id and is granted another stream is tuned to the room of its
person, which it showed as far as it had heard of it. -/
theorem attach_tuned (sound : visit.Sound) {id : PersonId} (known : visit.session.connection.id = some id)
    {person : Person} (found : visit.registry.person? id = some person) {key : String} {remote : Address}
    {now : Nat} {draw : Draw} (full : draw.bag.length = tileCount)
    (granted : (visit.attach key remote now draw).isWatching = true) :
    ∃ watch airing, (visit.attach key remote now draw).Tuned person.room watch airing
        (fun num => (visit.attach key remote now draw).registry.shouter? person.room = some num)
        (visit.session.connection.beginStream key).connection (visit.attach key remote now draw).heard ∧
      airing.id = id ∧ airing.player = person.player ∧ airing.before = visit.heard.foldl View.see {} ∧
      ((visit.attach key remote now draw).registry.stream? person.room watch).map (·.phase) = some .head := by
  obtain ⟨either, _, leads⟩ := attach_spec sound.registry sound.knows key remote now draw full
  obtain ⟨_, heard, _⟩ := attach_fields visit key remote now draw
  have begun := Connection.reads_beginStream visit.session.connection key
  rcases either with refused | ⟨home, watch, airing, tuned, _, phase⟩
  · obtain ⟨_, _, _, _, _, response, _⟩ := refused.waits
    obtain ⟨num, watch, stream⟩ := isWatching_iff.1 granted
    cases response.symm.trans stream
  · have same : airing.id = id := by
      have base : (visit.session.connection.beginStream key).connection.id = some id :=
        begun.person.trans known
      rcases tuned.same with none | some
      · cases base.symm.trans none
      · exact Option.some.inj (some.symm.trans base)
    obtain ⟨other, found', lives, player⟩ := tuned.person
    obtain ⟨later, there, room, number⟩ := leads.persons id person found
    rw [same, there] at found'
    obtain rfl := Option.some.inj found'
    obtain rfl := lives.symm.trans room
    refine ⟨watch, airing, tuned, same, player.symm.trans number, ?_, phase⟩
    rw [tuned.before, heard, List.foldl_append, begun.view]
    rfl

theorem Tuned.exists_drained (tuned : visit.Tuned home watch airing covered base earlier)
    (sound : visit.Sound) (begun : (visit.registry.stream? home watch).map (·.phase) = some .head)
    {room : Room} (there : visit.registry.lobby.room? home = some room) (sendable : room.conversation.Sendable)
    (present : room.conversation.isConnected airing.player = true) :
    ∃ size count, (visit.run [.read size, .deliver count]).Tuned home watch airing covered base earlier ∧
      (visit.run [.read size, .deliver count]).isDrained = true ∧
      (visit.run [.read size, .deliver count]).conversation? home = some room.conversation := by
  obtain ⟨⟨_, watching⟩, answering, rfl⟩ := Option.map_eq_some_iff.1 tuned.response
  obtain ⟨other, _, _, _, _, same, broadcasts, _⟩ := tuned.airs
  obtain rfl := Option.some.inj (there.symm.trans same)
  obtain ⟨stream, found, airs⟩ := broadcasts.airs
  have phase : stream.phase = .head := by
    rw [Registry.stream?, there, Option.bind_some, found] at begun
    exact Option.some.inj begun
  obtain ⟨size, _, unfinished, idle⟩ := WatchStream.exists_drained room.conversation stream
    (airs.player ▸ present) (by rw [phase]; decide)
  have told := tuned.read sound.registry size
  obtain ⟨same, next⟩ := read_stream answering there size
  obtain ⟨_, written, conversation⟩ := Room.read_some found size
  have accepted := told.accepts next (conversation ▸ sendable) (visit.read size).inFlight.length
  have answered : (visit.read size).answering = some ⟨.stream home watch, watching⟩ := by
    rw [same]
    exact answering
  have arrived : (visit.read size).deliver (visit.read size).inFlight.length = _ :=
    deliver_ok (by rw [answered]; rfl) accepted
  refine ⟨size, (visit.read size).inFlight.length, told.deliver accepted, ?_, ?_⟩
  · change ((visit.read size).deliver (visit.read size).inFlight.length).isDrained = true
    rw [arrived]
    unfold isDrained
    simp only [hear, answered, List.drop_length, List.isEmpty_nil, Registry.isFinished, Registry.hasPending,
      Registry.stream?, next, Option.bind_some, written, Option.all_some, Option.any_some, Room.hasPending,
      conversation, unfinished, idle]
    rfl
  · change ((visit.read size).deliver (visit.read size).inFlight.length).conversation? home = _
    rw [arrived, conversation?]
    simp only [hear, next, Option.map_some, conversation]

/-- A client that knows the id of its player, next to the room of that player. -/
structure Settled (visit : Visit label) (id : PersonId) (num : RoomNum) (player : Nat) (room : Conversation) :
    Prop where
  sound : visit.Sound
  attends : visit.Attends
  known : visit.session.connection.id = some id
  person : ∃ person, visit.registry.person? id = some person ∧ person.room = num ∧ person.player = player
  home : visit.conversation? num = some room

theorem Tuned.exists_shown
    (tuned : visit.Tuned home watch airing (fun num => visit.registry.shouter? home = some num) base earlier)
    (sound : visit.Sound) (attends : visit.Attends)
    (begun : (visit.registry.stream? home watch).map (·.phase) = some .head) {room : Conversation}
    (there : visit.conversation? home = some room) (sendable : room.Sendable)
    (present : room.isConnected airing.player = true) :
    ∃ size count,
      (visit.run [.read size, .deliver count]).Settled airing.id home airing.player room ∧
      (visit.run [.read size, .deliver count]).isDrained = true ∧
      (visit.run [.read size, .deliver count]).shown.Mirrors room airing.player ∧
      ((visit.run [.read size, .deliver count]).shown.MirrorsShout room airing.player ↔
        ∀ num, airing.before.showsShout num = true → room.shouter? = some num) := by
  obtain ⟨place, found, rfl⟩ := Option.map_eq_some_iff.1 there
  obtain ⟨size, count, still, drained, home'⟩ := tuned.exists_drained sound begun found sendable present
  obtain ⟨last, waits⟩ := run_spec sound attends [.read size, .deliver count]
  obtain ⟨other, here, id, _, shows⟩ := still.told drained
  have same : other.conversation = place.conversation := by
    rw [conversation?, here] at home'
    exact Option.some.inj home'
  obtain ⟨mirrors, shout⟩ := shows (last.few here)
  rw [← last.shown_eq, same] at mirrors shout
  have shouts (num : Nat) : visit.registry.shouter? home = some num ↔ place.conversation.shouter? = some num := by
    rw [Registry.shouter?, found, Option.bind_some]
  simp only [shouts] at shout
  exact ⟨size, count, ⟨last, waits, id, still.person, home'⟩, drained, mirrors, shout⟩

theorem conversation?_attach {id : PersonId} (known : visit.session.connection.id = some id) (key : String)
    (remote : Address) (now : Nat) (draw : Draw) (num : RoomNum) :
    (visit.attach key remote now draw).conversation? num = visit.conversation? num := by
  have request : visit.session.connection.watchRequest =
      .watchPerson id visit.session.connection.nextMessage := by
    rw [Connection.watchRequest, known]
  cases served : visit.registry.route (String.ofList visit.session.connection.watchRequest.target)
    (some (Key.hash key)) remote now draw with
  | mk routed registry =>
    have after : (visit.attach key remote now draw).registry = registry := by
      rw [attach_eq served]
      rfl
    rw [conversation?, after]
    rw [request, Registry.route, Request.parse_watchPerson] at served
    by_cases fits : visit.session.connection.nextMessage < UInt64.size
    · rw [if_pos fits] at served
      simp only [Registry.answer] at served
      split at served
      · rename_i person found
        rw [Registry.watch] at served
        split at served
        · obtain ⟨_, rfl⟩ := Prod.mk.inj served
          rfl
        · rename_i room there
          obtain ⟨_, rfl⟩ := Prod.mk.inj served
          exact Lobby.conversation_setRoom there (room.watch person.id person.player
            visit.session.connection.nextMessage (some (Key.hash key))).2 rfl num
      · obtain ⟨_, rfl⟩ := Prod.mk.inj served
        rfl
    · rw [if_neg fits] at served
      obtain ⟨_, rfl⟩ := Prod.mk.inj served
      rfl

theorem run_append (visit : Visit label) (first second : List VisitStep) :
    visit.run (first ++ second) = (visit.run first).run second :=
  List.foldl_append

theorem run_attach (visit : Visit label) (key : String) (remote : Address) (now : Nat) (draw : Draw)
    (full : draw.bag.length = tileCount) (rest : List VisitStep) :
    visit.run (.attach key remote now draw full :: rest) = (visit.attach key remote now draw).run rest := by
  rw [run, List.foldl_cons, step, run]

theorem run_interrupted (visit : Visit label) (key reason : String) (remote : Address) (now : Nat) (draw : Draw)
    (full : draw.bag.length = tileCount) (size count : Nat) (num : RoomNum) (action : Action) :
    visit.run [.attach key remote now draw full, .read size, .deliver count, .cut reason, .act num action] =
      ((visit.attach key remote now draw).run [.read size, .deliver count]).run
        [.cut reason, .act num action] := by
  rw [run_attach, ← run_append, List.cons_append, List.cons_append, List.nil_append]

namespace Settled

variable {id : PersonId} {num : RoomNum} {player : Nat} {room : Conversation}

theorem count (settled : visit.Settled id num player room) :
    visit.session.connection.nextMessage ≤ room.messages.length := by
  obtain ⟨sound, _, known, ⟨person, found, rfl, _⟩, home⟩ := settled
  obtain ⟨other, place, found', there, recalls⟩ := sound.knows.somebody id known
  obtain rfl := Option.some.inj (found.symm.trans found')
  rw [conversation?, there] at home
  obtain rfl := Option.some.inj home
  exact recalls.count

/-- A client that asks for another stream catches up with its room. -/
theorem exists_shown (settled : visit.Settled id num player room) (sendable : room.Sendable)
    (present : room.isConnected player = true) (fits : room.messages.length < UInt64.size) (key : String)
    (remote : Address) (now : Nat) (draw : Draw) (full : draw.bag.length = tileCount) :
    ∃ size count,
      ((visit.attach key remote now draw).run [.read size, .deliver count]).Settled id num player room ∧
      ((visit.attach key remote now draw).run [.read size, .deliver count]).isDrained = true ∧
      ((visit.attach key remote now draw).run [.read size, .deliver count]).shown.Mirrors room player ∧
      (((visit.attach key remote now draw).run [.read size, .deliver count]).shown.MirrorsShout room player ↔
        ∀ num, visit.shown.showsShout num = true → room.shouter? = some num) := by
  have few : visit.session.connection.nextMessage < UInt64.size := Nat.lt_of_le_of_lt settled.count fits
  obtain ⟨sound, attends, known, ⟨person, found, rfl, rfl⟩, home⟩ := settled
  obtain ⟨watch, airing, tuned, rfl, number, before, begun⟩ :=
    attach_tuned sound known found full (attach_granted sound known few key remote now draw)
  have still := (conversation?_attach known key remote now draw person.room).trans home
  rw [← number] at present ⊢
  rw [sound.shown_eq, ← before]
  exact tuned.exists_shown (sound.attach key remote now draw full) (attends_attach sound key remote now draw full)
    begun still sendable present

theorem interrupted (settled : visit.Settled id num player room) (reason : String) (action : Action) :
    (visit.run [.cut reason, .act num action]).Settled id num player (room.act action).after ∧
      (visit.run [.cut reason, .act num action]).shown = visit.shown := by
  obtain ⟨sound, attends, known, person, home⟩ := settled
  obtain ⟨last, waits⟩ := run_spec sound attends [.cut reason, .act num action]
  have reads := Connection.reads_fail visit.session.connection reason
  have lost : (visit.run [.cut reason, .act num action]).session =
      visit.session.hear (visit.session.connection.fail reason) := rfl
  have heard : (visit.run [.cut reason, .act num action]).heard =
      visit.heard ++ (visit.session.connection.fail reason).events := rfl
  refine ⟨⟨last, waits, ?_, person, ?_⟩, ?_⟩
  · rw [lost, Session.connection_hear]
    exact reads.person.trans known
  · obtain ⟨place, there, rfl⟩ := Option.map_eq_some_iff.1 home
    change ((visit.registry.act num action).lobby.room? num).map (·.conversation) = _
    rw [Registry.room?_act visit.registry num action there, Option.map_some, Room.conversation_act]
  · rw [last.shown_eq, sound.shown_eq, heard, List.foldl_append, reads.view]
    rfl

end Settled

/-- The first client of a server joins its first room and catches up with it. -/
theorem exists_settled {roomName name : String} (roomText : roomName.toList ≠ []) (nameText : name.toList ≠ [])
    (key : String) (remote : Address) (now : Nat) (id : PersonId) {bag : List Char}
    (full : bag.length = tileCount) (sendable : ((Conversation.ofBag bag).act (.join name)).after.Sendable) :
    ∃ size count id',
      (((ofNames roomName name : Visit label).attach key remote now ⟨[id], bag⟩).run
        [.read size, .deliver count]).Settled id' 0 0 ((Conversation.ofBag bag).act (.join name)).after ∧
      (((ofNames roomName name : Visit label).attach key remote now ⟨[id], bag⟩).run
        [.read size, .deliver count]).shown.MirrorsShout ((Conversation.ofBag bag).act (.join name)).after 0 := by
  have sound : (ofNames roomName name : Visit label).Sound := sound_ofNames roomName name
  have begun := Connection.reads_beginStream (ofNames roomName name : Visit label).session.connection key
  obtain ⟨_, heard, _⟩ := attach_fields (ofNames roomName name : Visit label) key remote now ⟨[id], bag⟩
  have right := sound.attach key remote now ⟨[id], bag⟩ full
  have waits := attends_attach sound key remote now ⟨[id], bag⟩ full
  obtain ⟨either, _⟩ := attach_spec sound.registry sound.knows key remote now ⟨[id], bag⟩ full
  -- The server is new, so the stream is the first one of its first room.
  have answers : ((ofNames roomName name : Visit label).attach key remote now ⟨[id], bag⟩).answering.map
      (·.response) = some (.stream 0 0) ∧
    ((ofNames roomName name : Visit label).attach key remote now ⟨[id], bag⟩).conversation? 0 =
      some ((Conversation.ofBag bag).act (.join name)).after := by
    have routed : ({} : Registry).route (String.ofList (Request.newPerson roomName name).target)
        (some (Key.hash key)) remote now ⟨[id], bag⟩ =
          ({} : Registry).answer (.newPerson roomName name) (some (Key.hash key)) remote now ⟨[id], bag⟩ := by
      rw [Registry.route, Request.parse_newPerson_text roomText nameText]
    obtain ⟨response, there⟩ := Registry.answer_first roomName name (some (Key.hash key)) remote now id bag
    rw [← routed] at response there
    cases served : (ofNames roomName name : Visit label).registry.route (String.ofList
      (ofNames roomName name : Visit label).session.connection.watchRequest.target) (some (Key.hash key))
      remote now ⟨[id], bag⟩ with
    | mk answer registry =>
      rw [attach_eq served]
      have same : ({} : Registry).route (String.ofList (Request.newPerson roomName name).target)
        (some (Key.hash key)) remote now ⟨[id], bag⟩ = (answer, registry) := served
      rw [same] at response there
      exact ⟨congrArg some response, there⟩
  generalize (ofNames roomName name : Visit label).attach key remote now ⟨[id], bag⟩ = visit at *
  rcases either with refused | ⟨home, watch, airing, tuned, _, phase⟩
  · obtain ⟨_, _, _, _, _, response, _⟩ := refused.waits
    cases response.symm.trans answers.1
  · obtain ⟨rfl, rfl⟩ := Response.stream.inj (Option.some.inj (tuned.response.symm.trans answers.1))
    have first : airing.player = 0 := by
      obtain ⟨room, _, _, _, _, there, broadcasts, _⟩ := tuned.airs
      obtain ⟨_, _, airs⟩ := broadcasts.airs
      have inside := airs.inside
      have same : room.conversation = ((Conversation.ofBag bag).act (.join name)).after := by
        have home := answers.2
        rw [conversation?, there] at home
        exact Option.some.inj home
      rw [same] at inside
      exact Nat.lt_one_iff.1 inside
    obtain ⟨size, count, settled, _, _, shout⟩ := tuned.exists_shown right waits phase answers.2 sendable
      (first ▸ rfl)
    refine ⟨size, count, airing.id, first ▸ settled, first ▸ shout.2 fun num shone => ?_⟩
    have fresh : airing.before = {} := by
      rw [tuned.before, heard]
      exact begun.view _
    rw [fresh, View.showsShout_nothing] at shone
    cases shone

end Visit

end TileRoom
