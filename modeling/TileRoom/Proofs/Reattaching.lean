import TileRoom.Proofs.CatchingUp

/-! A client that lost its stream and asks for another. The new stream is granted to the
person the client knows itself to be, and it brings what changed in the meantime. -/

namespace TileRoom

/-- Another stream restores what a client shows of its room. However its stream was lost,
and whatever happened since, a client that knows its id is granted another one, which it
can read as long as no name or message is too long for a chunk. When that stream is
drained, the client shows the players and the tiles as they are. It shows the shout as it
is if each player whom it showed shouting has been the one to shout at some time since it
asked for the stream. -/
theorem reattached_mirrors {label : Type} (roomName name : String) (earlier : List VisitStep) (key : String)
    (remote : Address) (now : Nat) (draw : Draw) (full : draw.bag.length = tileCount)
    (later : List VisitStep) (calm : ∀ step ∈ later, Visit.isCalm step = true) (id : PersonId) :
    let before := (Visit.ofNames roomName name : Visit label).run earlier
    let again := before.attach key remote now draw
    let after := again.run later
    before.session.connection.id = some id →
      ∃ person, before.registry.person? id = some person ∧
        (before.session.connection.nextMessage < UInt64.size → again.isWatching = true) ∧
        (again.isWatching = true → ∃ room, after.conversation? person.room = some room ∧
          (room.Sendable → after.isWatching = true) ∧
          (after.isDrained = true → after.shown.Mirrors room person.player ∧
            ((∀ num, before.shown.showsShout num = true → ∃ during, during <+: later ∧
                (again.run during).registry.shouter? person.room = some num) →
              after.shown.MirrorsShout room person.player))) := by
  intro before again after known
  obtain ⟨sound, attends⟩ := @Visit.run_spec label _ (Visit.sound_ofNames roomName name)
    (Visit.attends_ofNames roomName name) earlier
  obtain ⟨person, _, found, _⟩ := sound.knows.somebody id known
  refine ⟨person, found, fun fits => Visit.attach_granted sound known fits key remote now draw, ?_⟩
  intro granted
  obtain ⟨watch, airing, tuned, _, player, showed, _⟩ := Visit.attach_tuned sound known found full granted
  have right := sound.attach key remote now draw full
  have waits := Visit.attends_attach sound key remote now draw full
  obtain ⟨last, _⟩ := Visit.run_spec right waits later
  obtain ⟨room, there, either⟩ := tuned.run right waits calm
  have home : after.conversation? person.room = some room.conversation :=
    congrArg (Option.map Room.conversation) there
  refine ⟨room.conversation, home, ?_, ?_⟩
  · intro sendable
    rcases either with stays | ⟨_, long⟩
    · exact Visit.isWatching_iff.2 ⟨_, _, stays.response⟩
    · exact absurd sendable long
  · intro drained
    rcases either with stays | ⟨none, _⟩
    · obtain ⟨other, here, _, _, shows⟩ := stays.told drained
      obtain rfl := Option.some.inj (there.symm.trans here)
      obtain ⟨mirrors, shout⟩ := shows (last.few there)
      rw [← last.shown_eq, player] at mirrors shout
      refine ⟨mirrors, fun since => shout.2 fun num shone => Or.inr (since num ?_)⟩
      rw [sound.shown_eq, ← showed]
      exact shone
    · obtain ⟨num, watching, response⟩ := Visit.isWatching_iff.1 (Visit.isWatching_of_isDrained drained)
      rw [none] at response
      cases response

/-- A shout that began while the client had no stream is shown when it has one again. -/
theorem shout_begun_meanwhile_shown : ∃ size count again more id,
    let remote : Address := ⟨.v4 127 0 0 1, defaultPort⟩
    let before := (Visit.ofNames "lobby" "ann" : Visit Nat).run
      [.attach "first" remote 0 ⟨[7], fullBag⟩ fullBag_length, .read size, .deliver count, .cut "lost",
        .act 0 (.shout 0 5)]
    let after := (before.attach "second" remote 1 ⟨[8], fullBag⟩).run [.read again, .deliver more]
    before.session.connection.id = some id ∧ after.isDrained = true ∧
      ∃ person room, before.registry.person? id = some person ∧ after.conversation? person.room = some room ∧
        after.shown.Mirrors room person.player ∧ after.shown.MirrorsShout room person.player := by
  have sendable : ((Conversation.ofBag fullBag).act (.join "ann")).after.Sendable := by decide +kernel
  have still : (((Conversation.ofBag fullBag).act (.join "ann")).after.act (.shout 0 5)).after.Sendable := by
    decide +kernel
  obtain ⟨size, count, id, settled, shown⟩ := @Visit.exists_settled Nat "lobby" "ann" (by decide)
    (by decide) "first" ⟨.v4 127 0 0 1, defaultPort⟩ 0 7 _ fullBag_length sendable
  obtain ⟨lost, same⟩ := settled.interrupted "lost" (.shout 0 5)
  obtain ⟨again, more, last, drained, _, _⟩ := lost.exists_shown still rfl (by decide) "second"
    ⟨.v4 127 0 0 1, defaultPort⟩ 1 ⟨[8], fullBag⟩ fullBag_length
  have calm : ∀ step ∈ [VisitStep.read again, .deliver more], Visit.isCalm step = true := by simp [Visit.isCalm]
  have silent (num : Nat) : (((Visit.ofNames "lobby" "ann" : Visit Nat).attach "first"
      ⟨.v4 127 0 0 1, defaultPort⟩ 0 ⟨[7], fullBag⟩).run [.read size, .deliver count]).shown.showsShout num =
        false := by
    rw [shown.players]
    rfl
  obtain ⟨person, found, grants, goes⟩ := @reattached_mirrors Nat "lobby" "ann"
    [.attach "first" ⟨.v4 127 0 0 1, defaultPort⟩ 0 ⟨[7], fullBag⟩ fullBag_length, .read size, .deliver count,
      .cut "lost", .act 0 (.shout 0 5)] "second" ⟨.v4 127 0 0 1, defaultPort⟩ 1 ⟨[8], fullBag⟩ fullBag_length
    [.read again, .deliver more] calm id lost.known
  obtain ⟨room, home, _, shows⟩ := goes (grants (Nat.lt_of_le_of_lt lost.count (by decide)))
  obtain ⟨mirrors, shout⟩ := shows drained
  refine ⟨size, count, again, more, id, lost.known, drained, person, room, found, home, mirrors, ?_⟩
  apply shout
  intro num shone
  have never := (congrArg (View.showsShout · num) same).symm.trans shone
  rw [silent] at never
  cases never

/-- A tab in a name is not shown as it is, and a shout that the client saw is still shown
if it expired while the client had no stream. -/
theorem shout_expired_meanwhile_still_shown : ∃ size count size' count' again more id,
    let remote : Address := ⟨.v4 127 0 0 1, defaultPort⟩
    let shouted := (Visit.ofNames "lobby" "a\tb" : Visit Nat).run
      [.attach "first" remote 0 ⟨[7], fullBag⟩ fullBag_length, .read size, .deliver count, .cut "lost",
        .act 0 (.shout 0 5)]
    let before := shouted.run [.attach "second" remote 1 ⟨[8], fullBag⟩ fullBag_length, .read size',
      .deliver count', .cut "lost", .act 0 (.expire 100 10)]
    let after := (before.attach "third" remote 2 ⟨[9], fullBag⟩).run [.read again, .deliver more]
    before.session.connection.id = some id ∧ after.isDrained = true ∧
      ∃ room, after.conversation? 0 = some room ∧
        (room.player? 0).map (·.name) = some "a\tb" ∧
        (after.shown.players[0]?).map (·.name) = some (some "a b") ∧
        room.shouter? = none ∧ ¬after.shown.MirrorsShout room 0 := by
  have sendable : ((Conversation.ofBag fullBag).act (.join "a\tb")).after.Sendable := by decide +kernel
  have second : (((Conversation.ofBag fullBag).act (.join "a\tb")).after.act (.shout 0 5)).after.Sendable := by
    decide +kernel
  have third : ((((Conversation.ofBag fullBag).act (.join "a\tb")).after.act (.shout 0 5)).after.act
      (.expire 100 10)).after.Sendable := by decide +kernel
  have spaced : spacedText "a\tb" = "a b" := by decide +kernel
  obtain ⟨size, count, id, settled, shown⟩ := @Visit.exists_settled Nat "lobby" "a\tb"
    (by decide) (by decide) "first" ⟨.v4 127 0 0 1, defaultPort⟩ 0 7 _ fullBag_length sendable
  obtain ⟨lost, same⟩ := settled.interrupted "lost" (.shout 0 5)
  obtain ⟨size', count', settled', _, _, shout⟩ := lost.exists_shown second rfl (by decide) "second"
    ⟨.v4 127 0 0 1, defaultPort⟩ 1 ⟨[8], fullBag⟩ fullBag_length
  have shown' := shout.2 fun num shone => by
    rw [same, shown.players] at shone
    cases shone
  obtain ⟨lost', same'⟩ := settled'.interrupted "lost" (.expire 100 10)
  obtain ⟨again, more, last, drained, mirrors, still⟩ := lost'.exists_shown third rfl (by decide) "third"
    ⟨.v4 127 0 0 1, defaultPort⟩ 2 ⟨[9], fullBag⟩ fullBag_length
  obtain ⟨record, found, name, _⟩ := mirrors.players 0 ⟨0, "a\tb", true, false⟩ rfl
  refine ⟨size, count, size', count', again, more, id, ?_⟩
  simp only [Visit.run_interrupted]
  refine ⟨lost'.known, drained, _, last.home, rfl, ?_, rfl, ?_⟩
  · rw [found, Option.map_some, name, spaced]
  · intro right
    have never := still.1 right 0 (by rw [same', shown'.players]; rfl)
    cases never

end TileRoom
