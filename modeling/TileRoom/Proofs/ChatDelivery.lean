import TileRoom.Proofs.VisitRuns

/-! The chat that reaches a client. However often its stream is lost and wherever it is
cut, the client has heard the first messages of its room, as many as it counts. -/

namespace TileRoom

namespace Visit

variable {label : Type} {visit : Visit label}

theorem Sound.recalls (sound : visit.Sound) {id : PersonId} (known : visit.session.connection.id = some id) :
    ∃ room player, visit.home? = some room ∧ Recalls room player visit.session.connection visit.heard := by
  obtain ⟨person, room, found, there, recalls⟩ := sound.knows.somebody id known
  refine ⟨room.conversation, person.player, ?_, recalls⟩
  rw [home?, known, Option.bind_some, found, Option.bind_some, conversation?, there]
  rfl

theorem Attends.heard_all (attends : visit.Attends) (sound : visit.Sound) (drained : visit.isDrained = true) :
    ∃ room, visit.home? = some room ∧ visit.session.connection.nextMessage = room.messages.length ∧
      visit.heard.filterMap Event.message? = room.messages.map Message.spaced := by
  rcases attends.answer with none | ⟨_, _, refused⟩ | ⟨home, _, airing, _, _, _, tuned⟩
  · rw [isDrained, none] at drained
    cases drained
  · obtain ⟨_, _, _, _, _, response, _⟩ := refused.waits
    obtain ⟨⟨_, watching⟩, answering, rfl⟩ := Option.map_eq_some_iff.1 response
    rw [isDrained, answering] at drained
    cases drained
  · obtain ⟨room, there, id, messages, _⟩ := tuned.told drained
    obtain ⟨person, known, lives, _⟩ := tuned.person
    have found : visit.home? = some room.conversation := by
      rw [home?, id, Option.bind_some, known, Option.bind_some, lives, conversation?, there]
      rfl
    obtain ⟨other, _, same, recalls⟩ := sound.recalls id
    obtain rfl := Option.some.inj (found.symm.trans same)
    refine ⟨room.conversation, found, ?_, messages⟩
    have count := congrArg List.length (recalls.messages.symm.trans messages)
    rw [List.length_map, List.length_map, List.length_take, Nat.min_eq_left recalls.count] at count
    exact count

end Visit

/-- No message is lost, repeated or reordered. In every state a visit can come to, the
messages that the client heard are the first ones of the room of its person, up to the
number that it asks to go on from, and once its stream is drained they are all there are.
A client that was never told its id has heard none. -/
theorem chat_delivered {label : Type} (roomName name : String) (steps : List VisitStep) :
    let visit := (Visit.ofNames roomName name : Visit label).run steps
    let chat := visit.heard.filterMap Event.message?
    let count := visit.session.connection.nextMessage
    (visit.session.connection.id = none → count = 0 ∧ chat = []) ∧
      (visit.session.connection.id.isSome = true → ∃ room, visit.home? = some room ∧
        count ≤ room.messages.length ∧ chat = (room.messages.take count).map Message.spaced) ∧
      (visit.isDrained = true → ∃ room, visit.home? = some room ∧
        count = room.messages.length ∧ chat = room.messages.map Message.spaced) := by
  intro visit chat count
  obtain ⟨sound, attends⟩ := @Visit.run_spec label _ (Visit.sound_ofNames roomName name)
    (Visit.attends_ofNames roomName name) steps
  refine ⟨?_, ?_, attends.heard_all sound⟩
  · intro none
    obtain ⟨first, silent, _⟩ := sound.knows.nobody none
    exact ⟨first, silent⟩
  · intro some
    obtain ⟨id, known⟩ := Option.isSome_iff_exists.1 some
    obtain ⟨room, _, home, recalls⟩ := sound.recalls known
    exact ⟨room, home, recalls.count, recalls.messages⟩

end TileRoom
