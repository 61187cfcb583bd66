import TileRoom.Proofs.Visiting

/-! Runs of a visit. Every step keeps both ends in order and leaves the client waiting for
nothing, for a refusal, or for a stream of its own that no lost answer can end. -/

namespace TileRoom

namespace Visit

variable {label : Type} {visit : Visit label} {home : RoomNum} {watch : WatchId} {airing : Airing}
  {covered : Nat → Prop} {base : Connection} {earlier : List Event}

/-- Both ends of a visit are in order, and every stream that answered the client is one its
room has given out. -/
structure Sound (visit : Visit label) : Prop where
  registry : visit.registry.Sound
  applies : visit.session.Applies {} visit.heard
  knows : Knows visit.registry visit.session.connection visit.heard
  issued : ∀ routed ∈ visit.lost ++ visit.answering.toList, ∀ num watch,
    routed.response = .stream num watch →
      ∃ room, visit.registry.lobby.room? num = some room ∧ watch < room.nextWatch

/-- The client waits for nothing, for a refusal, or for its stream, and no answer that was
lost is that stream. -/
structure Attends (visit : Visit label) : Prop where
  apart : ∀ routed ∈ visit.lost, ∀ num watch,
    visit.answering.map (·.response) = some (.stream num watch) → routed.response ≠ .stream num watch
  answer : visit.answering = none ∨ (∃ base earlier, visit.Refused base earlier) ∨
    ∃ home watch airing covered base earlier, visit.Tuned home watch airing covered base earlier

theorem sound_ofNames (room name : String) : (ofNames room name : Visit label).Sound where
  registry := Registry.sound_empty
  applies := Session.applies_ofNames room name
  knows := ⟨fun _ => ⟨rfl, rfl, rfl⟩, fun _ none => by cases none⟩
  issued _ none := by cases none

theorem attends_ofNames (room name : String) : (ofNames room name : Visit label).Attends where
  apart _ none := by cases none
  answer := Or.inl rfl

theorem Sound.leads {kept : RoomNum → WatchId → Prop} (sound : visit.Sound) {registry : Registry}
    (fine : registry.Sound) (leads : visit.registry.Leads kept registry) {session : Session label}
    (applies : session.Applies {} visit.heard) (same : session.connection = visit.session.connection)
    (inFlight : Bytes) {answering : Option Routed} {lost : List Routed}
    (kind : ∀ routed ∈ lost ++ answering.toList, ∃ known ∈ visit.lost ++ visit.answering.toList,
      ∀ num watch, routed.response = .stream num watch → known.response = .stream num watch) :
    Sound ⟨registry, session, visit.heard, answering, inFlight, lost⟩ where
  registry := fine
  applies := applies
  knows := same ▸ sound.knows.mono leads
  issued routed member num watch response := by
    obtain ⟨known, listed, stream⟩ := kind routed member
    obtain ⟨room, there, given⟩ := sound.issued known listed num watch (stream num watch response)
    obtain ⟨later, here, turns⟩ := leads.rooms num room there
    exact ⟨later, here, Nat.lt_of_lt_of_le given turns.given⟩

theorem Sound.hear (sound : visit.Sound) {news : Heard} (inFlight : Bytes)
    (knows : Knows visit.registry news.connection (visit.heard ++ news.events)) :
    (Visit.hear { visit with inFlight } news).Sound where
  registry := sound.registry
  applies := sound.applies.hear news
  knows := by
    simp only [Visit.hear, Session.connection_hear]
    exact knows
  issued := sound.issued

theorem Sound.fail (sound : visit.Sound) (reason : String) : (visit.fail reason).Sound where
  registry := sound.registry
  applies := sound.applies.hear _
  knows := knows_fail sound.knows reason
  issued routed member := by
    apply sound.issued routed
    simpa only [Visit.fail, Visit.hear, drop, Option.toList_none, List.append_nil] using member

theorem attends_fail (visit : Visit label) (reason : String) : (visit.fail reason).Attends where
  apart _ _ _ _ none := by cases none
  answer := Or.inl rfl

theorem Tuned.issued (tuned : visit.Tuned home watch airing covered base earlier) :
    ∃ room, visit.registry.lobby.room? home = some room ∧ watch < room.nextWatch := by
  obtain ⟨room, frames, delivered, got, news, there, broadcasts, _⟩ := tuned.airs
  obtain ⟨stream, found, _⟩ := broadcasts.airs
  exact ⟨room, there, Room.lt_of_stream? broadcasts.wired found⟩

def isAside : VisitStep → Bool
  | .act .. | .serve .. | .close _ | .flush => true
  | .attach .. | .read _ | .deliver _ | .cut _ => false

/-- Whether a step leaves the client with its stream, as far as it can read it. -/
def isCalm : VisitStep → Bool
  | .read _ | .deliver _ => true
  | step => isAside step

theorem step_aside (sound : visit.Sound) {step : VisitStep} (aside : isAside step = true) :
    ∃ registry session lost, visit.step step = { visit with registry, session, lost } ∧ registry.Sound ∧
      visit.registry.Leads (fun num watch => ∀ routed ∈ visit.lost, routed.response ≠ .stream num watch)
        registry ∧
      session.Applies {} visit.heard ∧ session.connection = visit.session.connection ∧
      ∀ routed ∈ lost, routed ∈ visit.lost := by
  cases step with
  | act num action =>
    exact ⟨_, visit.session, visit.lost, rfl, Registry.sound_act sound.registry num action,
      Registry.leads_act sound.registry num action, sound.applies, rfl, fun _ => id⟩
  | serve request stays keyHash remote now draw full =>
    obtain ⟨fine, leads⟩ := Registry.answer_spec sound.registry request stays keyHash remote now draw full
    exact ⟨_, visit.session, visit.lost, rfl, fine, leads, sound.applies, rfl, fun _ => id⟩
  | close now =>
    change ∃ registry session lost, visit.close now = _ ∧ _
    unfold Visit.close
    cases lost : visit.lost with
    | nil =>
      exact ⟨visit.registry, visit.session, visit.lost, rfl, sound.registry, Registry.leads_same sound.registry,
        sound.applies, rfl, fun _ member => lost ▸ member⟩
    | cons routed rest =>
      obtain ⟨fine, leads⟩ := Registry.close_spec sound.registry routed now
        fun num watch (apart : ∀ other ∈ routed :: rest, other.response ≠ .stream num watch) =>
          apart routed List.mem_cons_self
      exact ⟨_, visit.session, rest, rfl, fine, leads, sound.applies, rfl, fun _ => List.mem_cons_of_mem _⟩
  | flush =>
    obtain ⟨applies, connection, _⟩ := sound.applies.flush
    exact ⟨visit.registry, _, visit.lost, rfl, sound.registry, Registry.leads_same sound.registry, applies,
      connection, fun _ => id⟩
  | attach | read | deliver | cut => cases aside

theorem attach_fields (visit : Visit label) (key : String) (remote : Address) (now : Nat) (draw : Draw) :
    (visit.attach key remote now draw).session =
        visit.session.hear (visit.session.connection.beginStream key) ∧
      (visit.attach key remote now draw).heard =
        visit.heard ++ (visit.session.connection.beginStream key).events ∧
      (visit.attach key remote now draw).lost = visit.lost ++ visit.answering.toList := by
  cases served : visit.registry.route (String.ofList visit.session.connection.watchRequest.target)
    (some (Key.hash key)) remote now draw with
  | mk routed registry =>
    rw [attach_eq served]
    exact ⟨rfl, rfl, rfl⟩

theorem response_read (registry : Registry) (response : Response) (size : Nat) {num : RoomNum}
    {watch : WatchId} (stream : (registry.read response size).2.1 = .stream num watch) :
    response = .stream num watch := by
  cases response with
  | reply reply => cases stream
  | stream other listener => rwa [Registry.stream_read] at stream

theorem Sound.attach (sound : visit.Sound) (key : String) (remote : Address) (now : Nat) (draw : Draw)
    (full : draw.bag.length = tileCount) :
    (visit.attach key remote now draw).Sound := by
  obtain ⟨session, heard, lost⟩ := attach_fields visit key remote now draw
  obtain ⟨either, fine, leads⟩ := attach_spec sound.registry sound.knows key remote now draw full
  refine ⟨fine, ?_, ?_, ?_⟩
  · rw [session, heard]
    exact sound.applies.hear _
  · rcases either with refused | ⟨home, watch, airing, tuned, _⟩
    · exact refused.knows
    · exact tuned.knows
  · intro routed member num watch response
    rw [lost] at member
    rcases List.mem_append.1 member with old | current
    · obtain ⟨room, there, given⟩ := sound.issued routed old num watch response
      obtain ⟨later, here, turns⟩ := leads.rooms num room there
      exact ⟨later, here, Nat.lt_of_lt_of_le given turns.given⟩
    · have answering := Option.mem_toList.1 current
      rcases either with refused | ⟨home, listener, airing, tuned, _⟩
      · obtain ⟨_, _, _, _, _, reply, _⟩ := refused.waits
        rw [answering, Option.map_some, response] at reply
        cases reply
      · have stream := tuned.response
        rw [answering, Option.map_some, response] at stream
        obtain ⟨rfl, rfl⟩ := Response.stream.inj (Option.some.inj stream)
        exact tuned.issued

theorem Sound.deliver (sound : visit.Sound) (attends : visit.Attends) (count : Nat) :
    (visit.deliver count).Sound := by
  cases answering : visit.answering with
  | none =>
    rw [Visit.deliver, answering]
    exact sound
  | some routed =>
    have answered : visit.answering.isSome = true := by rw [answering]; rfl
    cases read : (visit.session.connection.receive (visit.inFlight.take count)).1 with
    | error cause =>
      rw [deliver_error answered read]
      exact (sound.hear _ (sound.knows.of_reads (Connection.reads_receive_error read))).fail _
    | ok =>
      have knows : Knows (visit.deliver count).registry (visit.deliver count).session.connection
          (visit.deliver count).heard := by
        rcases attends.answer with none | ⟨base, earlier, refused⟩ | ⟨_, _, _, _, _, _, tuned⟩
        · rw [answering] at none
          cases none
        · exact (refused.deliver read).knows
        · exact (tuned.deliver read).knows
      rw [deliver_ok answered read] at knows ⊢
      exact ⟨sound.registry, sound.applies.hear _, knows, sound.issued⟩

theorem Sound.aside (sound : visit.Sound) {step : VisitStep} (aside : isAside step = true) :
    (visit.step step).Sound := by
  obtain ⟨registry, session, lost, same, fine, leads, applies, connection, fewer⟩ := step_aside sound aside
  rw [same]
  refine sound.leads fine leads applies connection _ fun routed member =>
    ⟨routed, ?_, fun _ _ response => response⟩
  exact (List.mem_append.1 member).elim (fun old => List.mem_append_left _ (fewer routed old))
    (List.mem_append_right _)

theorem Sound.read (sound : visit.Sound) (size : Nat) : (visit.read size).Sound := by
  cases answering : visit.answering with
  | none =>
    rw [Visit.read, answering]
    exact sound
  | some routed =>
    obtain ⟨fine, leads⟩ := Registry.read_spec sound.registry routed.response size
      fun _ _ (never : False) => never.elim
    rw [read_eq answering]
    apply sound.leads fine leads sound.applies rfl _
    intro found member
    rcases List.mem_append.1 member with old | current
    · exact ⟨found, List.mem_append_left _ old, fun _ _ response => response⟩
    · obtain rfl := Option.some.inj (Option.mem_toList.1 current)
      refine ⟨routed, List.mem_append_right _ (by rw [answering]; exact List.mem_singleton_self _), ?_⟩
      exact fun num watch response => response_read visit.registry routed.response size response

theorem leads_calm (sound : visit.Sound) {step : VisitStep} (calm : isCalm step = true) :
    visit.registry.Leads (fun _ _ => False) (visit.step step).registry := by
  have aside (step : VisitStep) (aside : isAside step = true) :
      visit.registry.Leads (fun _ _ => False) (visit.step step).registry := by
    obtain ⟨registry, session, lost, same, _, leads, _⟩ := step_aside sound aside
    rw [same]
    exact leads.weaken fun _ _ never => never.elim
  cases step with
  | act | serve | close | flush => exact aside _ rfl
  | attach | cut => cases calm
  | read size =>
    change visit.registry.Leads _ (visit.read size).registry
    cases answering : visit.answering with
    | none =>
      rw [Visit.read, answering]
      exact Registry.leads_same sound.registry
    | some routed =>
      rw [read_eq answering]
      exact (Registry.read_spec sound.registry routed.response size fun _ _ never => never.elim).2
  | deliver count =>
    have same : (visit.deliver count).registry = visit.registry := by
      unfold Visit.deliver
      split
      · rfl
      · dsimp only
        split <;> rfl
    change visit.registry.Leads _ (visit.deliver count).registry
    rw [same]
    exact Registry.leads_same sound.registry

theorem Sound.step (sound : visit.Sound) (attends : visit.Attends) (step : VisitStep) :
    (visit.step step).Sound := by
  cases step with
  | act | serve | close | flush => exact sound.aside rfl
  | attach key remote now draw full => exact sound.attach key remote now draw full
  | read size => exact sound.read size
  | deliver count => exact sound.deliver attends count
  | cut reason => exact sound.fail reason

theorem Tuned.covers (tuned : visit.Tuned home watch airing covered base earlier)
    (sound : visit.registry.Sound) :
    visit.Tuned home watch airing (fun num => covered num ∨
      visit.registry.shouter? home = some num) base earlier := by
  have same : visit.registry.Leads (fun _ _ => True) visit.registry := Registry.leads_same sound
  exact tuned.leads same trivial visit.session rfl visit.lost

/-- Any step but a new request or a cut leaves the client tuned, unless its room cannot be
sent; the player who shouts after the step is covered. -/
theorem Tuned.step (tuned : visit.Tuned home watch airing covered base earlier) (sound : visit.Sound)
    (attends : visit.Attends) {step : VisitStep} (calm : isCalm step = true) :
    (visit.step step).Tuned home watch airing (fun num => covered num ∨
      (visit.step step).registry.shouter? home = some num) base earlier ∨
    (visit.step step).answering = none ∧
      ∀ room, visit.registry.lobby.room? home = some room → ¬room.conversation.Sendable := by
  have aside (step : VisitStep) (aside : isAside step = true) : (visit.step step).Tuned home watch airing
      (fun num => covered num ∨
        (visit.step step).registry.shouter? home = some num) base
      earlier := by
    obtain ⟨registry, session, lost, same, _, leads, _, connection, _⟩ := step_aside sound aside
    rw [same]
    exact tuned.leads leads (fun routed member => attends.apart routed member home watch tuned.response)
      session connection lost
  have next := (sound.step attends step).registry
  cases step with
  | act | serve | close | flush => exact Or.inl (aside _ rfl)
  | attach | cut => cases calm
  | read size => exact Or.inl ((tuned.read sound.registry size).covers next)
  | deliver count =>
    cases read : (visit.session.connection.receive (visit.inFlight.take count)).1 with
    | ok => exact Or.inl ((tuned.deliver read).covers next)
    | error cause =>
      have answered : visit.answering.isSome = true := by
        rw [← Option.isSome_map, tuned.response]
        rfl
      refine Or.inr ⟨?_, ?_⟩
      · change (visit.deliver count).answering = none
        rw [deliver_error answered read]
        rfl
      · intro room there sendable
        rw [tuned.accepts there sendable count] at read
        cases read

theorem Refused.step (refused : visit.Refused base earlier) (sound : visit.Sound) {step : VisitStep}
    (calm : isCalm step = true) :
    (visit.step step).Refused base earlier ∨ (visit.step step).answering = none := by
  have aside (step : VisitStep) (aside : isAside step = true) : (visit.step step).Refused base earlier := by
    obtain ⟨registry, session, lost, same, _, leads, _, connection, _⟩ := step_aside sound aside
    rw [same]
    exact refused.leads leads session connection lost
  cases step with
  | act | serve | close | flush => exact Or.inl (aside _ rfl)
  | attach | cut => cases calm
  | read size => exact Or.inl (refused.read size)
  | deliver count =>
    have answered : visit.answering.isSome = true := by
      obtain ⟨_, _, _, _, _, response, _⟩ := refused.waits
      rw [← Option.isSome_map, response]
      rfl
    cases read : (visit.session.connection.receive (visit.inFlight.take count)).1 with
    | ok => exact Or.inl (refused.deliver read)
    | error cause =>
      right
      change (visit.deliver count).answering = none
      rw [deliver_error answered read]
      rfl

theorem step_calm (sound : visit.Sound) {step : VisitStep} (calm : isCalm step = true) {routed : Routed}
    (answering : (visit.step step).answering = some routed) :
    (∀ other ∈ (visit.step step).lost, other ∈ visit.lost) ∧
      ∃ old, visit.answering = some old ∧
        ∀ num watch, routed.response = .stream num watch → old.response = .stream num watch := by
  have aside (step : VisitStep) (aside : isAside step = true)
      (answering : (visit.step step).answering = some routed) :
      (∀ other ∈ (visit.step step).lost, other ∈ visit.lost) ∧ visit.answering = some routed := by
    obtain ⟨registry, session, lost, same, _, _, _, _, fewer⟩ := step_aside sound aside
    rw [same] at answering ⊢
    exact ⟨fewer, answering⟩
  cases step with
  | act | serve | close | flush =>
    obtain ⟨lost, same⟩ := aside _ rfl answering
    exact ⟨lost, routed, same, fun _ _ => id⟩
  | attach | cut => cases calm
  | read size =>
    change (visit.read size).answering = some routed at answering
    change (∀ other ∈ (visit.read size).lost, _) ∧ _
    cases before : visit.answering with
    | none =>
      rw [Visit.read, before] at answering
      cases before.symm.trans answering
    | some old =>
      rw [read_eq before] at answering ⊢
      obtain rfl := Option.some.inj answering
      exact ⟨fun _ => id, old, rfl, fun num watch => response_read visit.registry old.response size⟩
  | deliver count =>
    change (visit.deliver count).answering = some routed at answering
    change (∀ other ∈ (visit.deliver count).lost, _) ∧ _
    cases before : visit.answering with
    | none =>
      rw [Visit.deliver, before] at answering
      cases before.symm.trans answering
    | some old =>
      have waits : visit.answering.isSome = true := by rw [before]; rfl
      cases read : (visit.session.connection.receive (visit.inFlight.take count)).1 with
      | ok =>
        rw [deliver_ok waits read] at answering ⊢
        obtain rfl := Option.some.inj (before.symm.trans answering)
        exact ⟨fun _ => id, old, rfl, fun _ _ => id⟩
      | error cause =>
        rw [deliver_error waits read] at answering
        cases answering

theorem attends_attach (sound : visit.Sound) (key : String) (remote : Address) (now : Nat) (draw : Draw)
    (full : draw.bag.length = tileCount) :
    (visit.attach key remote now draw).Attends := by
  obtain ⟨_, _, lost⟩ := attach_fields visit key remote now draw
  obtain ⟨either, _⟩ := attach_spec sound.registry sound.knows key remote now draw full
  rcases either with refused | ⟨home, watch, airing, tuned, fresh, _⟩
  · refine ⟨?_, Or.inr (Or.inl ⟨_, _, refused⟩)⟩
    intro _ _ num watch stream
    obtain ⟨_, _, _, _, _, response, _⟩ := refused.waits
    cases response.symm.trans stream
  · refine ⟨?_, Or.inr (Or.inr ⟨_, _, _, _, _, _, tuned⟩)⟩
    intro routed member num listener stream same
    obtain ⟨rfl, rfl⟩ := Response.stream.inj (Option.some.inj (tuned.response.symm.trans stream))
    rw [lost] at member
    obtain ⟨room, there, given⟩ := sound.issued routed member home watch same
    exact absurd given (Nat.not_lt.2 (fresh room there))

theorem Attends.step (attends : visit.Attends) (sound : visit.Sound) (step : VisitStep) :
    (visit.step step).Attends := by
  by_cases calm : isCalm step = true
  · cases answering : (visit.step step).answering with
    | none =>
      refine ⟨?_, Or.inl answering⟩
      intro _ _ _ _ stream
      rw [answering] at stream
      cases stream
    | some routed =>
      obtain ⟨lost, old, before, stream⟩ := step_calm sound calm answering
      constructor
      · intro other member num watch response
        apply attends.apart other (lost other member) num watch
        rw [answering] at response
        rw [before]
        exact congrArg some (stream num watch (Option.some.inj response))
      · right
        rcases attends.answer with none | ⟨base, earlier, refused⟩ | ⟨_, _, _, _, _, _, tuned⟩
        · cases before.symm.trans none
        · rcases refused.step sound calm with next | none
          · exact Or.inl ⟨base, earlier, next⟩
          · cases answering.symm.trans none
        · rcases tuned.step sound attends calm with next | ⟨none, _⟩
          · exact Or.inr ⟨_, _, _, _, _, _, next⟩
          · cases answering.symm.trans none
  · cases step with
    | attach key remote now draw full => exact attends_attach sound key remote now draw full
    | cut reason => exact attends_fail visit reason
    | act | serve | read | deliver | close | flush => exact absurd rfl calm

theorem run_spec (sound : visit.Sound) (attends : visit.Attends) (steps : List VisitStep) :
    (visit.run steps).Sound ∧ (visit.run steps).Attends := by
  induction steps generalizing visit with
  | nil => exact ⟨sound, attends⟩
  | cons step rest ih => exact ih (sound.step attends step) (attends.step sound step)

theorem unsendable_calm (sound : visit.Sound) {step : VisitStep}
    (calm : isCalm step = true) {room : Room} (there : visit.registry.lobby.room? home = some room)
    (long : ¬room.conversation.Sendable) :
    ∃ later, (visit.step step).registry.lobby.room? home = some later ∧ ¬later.conversation.Sendable := by
  obtain ⟨later, here, turns⟩ := (leads_calm sound calm).rooms home room there
  obtain ⟨changes, altered, _⟩ := turns.altered
  exact ⟨later, here, fun sendable => long (sendable.of_altered altered
    (sound.registry.rooms home room there).2 turns.consistent)⟩

theorem silent_run (sound : visit.Sound) (attends : visit.Attends) {steps : List VisitStep}
    (calm : ∀ step ∈ steps, isCalm step = true) (none : visit.answering = none) {room : Room}
    (there : visit.registry.lobby.room? home = some room) (long : ¬room.conversation.Sendable) :
    ∃ later, (visit.run steps).registry.lobby.room? home = some later ∧
      (visit.run steps).answering = .none ∧ ¬later.conversation.Sendable := by
  induction steps generalizing visit room with
  | nil => exact ⟨room, there, none, long⟩
  | cons step rest ih =>
    obtain ⟨first, later⟩ := List.forall_mem_cons.1 calm
    obtain ⟨next, here, still⟩ := unsendable_calm sound first there long
    refine ih (sound.step attends step) (attends.step sound step) later ?_ here still
    cases answering : (visit.step step).answering with
    | none => rfl
    | some routed =>
      obtain ⟨_, old, before, _⟩ := step_calm sound first answering
      cases none.symm.trans before

theorem shouted_cons (visit : Visit label) (home : RoomNum) (step : VisitStep) (rest : List VisitStep)
    (covered : Nat → Prop) :
    (fun num => ((covered num ∨ visit.registry.shouter? home = some num) ∨
        (visit.step step).registry.shouter? home = some num) ∨
      ∃ during, during <+: rest ∧ ((visit.step step).run during).registry.shouter? home = some num) =
    fun num => covered num ∨
      ∃ during, during <+: step :: rest ∧ (visit.run during).registry.shouter? home = some num := by
  funext num
  refine propext ⟨?_, ?_⟩
  · rintro (((known | now) | next) | ⟨during, part, later⟩)
    · exact Or.inl known
    · exact Or.inr ⟨[], List.nil_prefix, now⟩
    · exact Or.inr ⟨[step], List.cons_prefix_cons.2 ⟨rfl, List.nil_prefix⟩, next⟩
    · exact Or.inr ⟨step :: during, List.cons_prefix_cons.2 ⟨rfl, part⟩, later⟩
  · rintro (known | ⟨during, part, shouts⟩)
    · exact Or.inl (Or.inl (Or.inl known))
    · cases during with
      | nil => exact Or.inl (Or.inl (Or.inr shouts))
      | cons other during =>
        obtain ⟨rfl, rest'⟩ := List.cons_prefix_cons.1 part
        exact Or.inr ⟨during, rest', shouts⟩

theorem Tuned.run (tuned : visit.Tuned home watch airing covered base earlier) (sound : visit.Sound)
    (attends : visit.Attends) {steps : List VisitStep} (calm : ∀ step ∈ steps, isCalm step = true) :
    ∃ room, (visit.run steps).registry.lobby.room? home = some room ∧
      ((visit.run steps).Tuned home watch airing (fun num => covered num ∨ ∃ during, during <+: steps ∧
          (visit.run during).registry.shouter? home = some num) base
          earlier ∨
        (visit.run steps).answering = none ∧ ¬room.conversation.Sendable) := by
  induction steps generalizing visit covered with
  | nil =>
    obtain ⟨room, there, _⟩ := tuned.issued
    refine ⟨room, there, Or.inl ?_⟩
    have now := tuned.covers sound.registry
    simp only [List.prefix_nil, exists_eq_left]
    exact now
  | cons step rest ih =>
    obtain ⟨first, later⟩ := List.forall_mem_cons.1 calm
    have right := sound.step attends step
    have waits := attends.step sound step
    rcases (tuned.covers sound.registry).step sound attends first with stays | ⟨none, long⟩
    · obtain ⟨room, there, either⟩ := ih stays right waits later
      refine ⟨room, there, either.imp_left fun last => ?_⟩
      rw [← shouted_cons]
      exact last
    · obtain ⟨room, there, _⟩ := tuned.issued
      obtain ⟨next, here, still⟩ := unsendable_calm sound first there (long room there)
      obtain ⟨last, found, silent, ever⟩ := silent_run right waits later none here still
      exact ⟨last, found, Or.inr ⟨silent, ever⟩⟩

theorem Tuned.drained_of_isDrained (tuned : visit.Tuned home watch airing covered base earlier)
    (drained : visit.isDrained = true) :
    visit.inFlight = [] ∧ ∃ room, visit.registry.lobby.room? home = some room ∧ room.isDrained watch = true := by
  obtain ⟨⟨_, watching⟩, answering, rfl⟩ := Option.map_eq_some_iff.1 tuned.response
  obtain ⟨room, _, _, _, _, there, broadcasts, _⟩ := tuned.airs
  obtain ⟨stream, found, _⟩ := broadcasts.airs
  unfold isDrained at drained
  rw [answering] at drained
  simp only [Registry.isFinished, Registry.hasPending, Registry.stream?, there, Option.bind_some, found,
    Option.all_some, Option.any_some, Room.hasPending, Bool.and_eq_true, List.isEmpty_iff] at drained
  obtain ⟨⟨arrived, goes⟩, silent⟩ := drained
  refine ⟨arrived, room, there, ?_⟩
  rw [Room.isDrained, found, Option.any_some, goes, silent]
  rfl

theorem Tuned.told (tuned : visit.Tuned home watch airing covered base earlier)
    (drained : visit.isDrained = true) :
    ∃ room, visit.registry.lobby.room? home = some room ∧ visit.session.connection.id = some airing.id ∧
      visit.heard.filterMap Event.message? = room.conversation.messages.map Message.spaced ∧
      (room.conversation.tiles.length ≤ 128 →
        (visit.heard.foldl View.see {}).Mirrors room.conversation airing.player ∧
        ((visit.heard.foldl View.see {}).MirrorsShout room.conversation airing.player ↔
          ∀ num, airing.before.showsShout num = true → covered num)) := by
  obtain ⟨arrived, room, there, idle⟩ := tuned.drained_of_isDrained drained
  obtain ⟨other, frames, delivered, got, news, same, broadcasts, listens, heard⟩ := tuned.airs
  obtain rfl := Option.some.inj (there.symm.trans same)
  obtain ⟨stream, found, airs⟩ := broadcasts.airs
  have empty := Room.drained_of_isDrained found idle
  rw [arrived, List.append_nil] at airs
  obtain ⟨reads, _⟩ := airs.heard_all broadcasts.consistent empty listens
  obtain ⟨id, _, shown⟩ := airs.recalls broadcasts.consistent tuned.first tuned.before
    (tuned.heard_before there) (List.prefix_refl frames) reads
  refine ⟨room, there, id, ?_, ?_⟩
  · have whole := airs.recounts.messages
    rw [List.take_of_length_le (i := stream.agenda.nextMessage) empty.told] at whole
    rw [heard, List.filterMap_append, tuned.heard_before there, reads.messages, List.filterMap_cons_none rfl,
      messages_received, ← List.map_append, whole]
  · intro few
    rw [heard, shown]
    exact airs.mirrored empty few

end Visit

end TileRoom
