import TileRoom.Proofs.Answering
import TileRoom.Proofs.Resting

/-! What a peer sends after the head of its request leaves no trace. A connection that is sent
more is woken at times and finds nothing to write, so all it writes is written as well by its
shadow: a connection that takes the head in one piece and is sent nothing after it. -/

namespace TileRoom

namespace Link

/-- A connection and its shadow are at the same place, or the shadow waits while the connection
was woken; and when the shadow waits its stream rests. -/
inductive Shadows (lobby : Lobby) : LinkPhase → LinkPhase → Prop where
  | writing (routed : Routed) : Shadows lobby (.writing routed) (.writing routed)
  | waiting {num : RoomNum} {watch : WatchId} (watching : Option PersonId) (rests : lobby.Rests num watch) :
      Shadows lobby (.waiting ⟨.stream num watch, watching⟩) (.waiting ⟨.stream num watch, watching⟩)
  | woken {num : RoomNum} {watch : WatchId} (watching : Option PersonId) (rests : lobby.Rests num watch) :
      Shadows lobby (.writing ⟨.stream num watch, watching⟩) (.waiting ⟨.stream num watch, watching⟩)
  | ended (outcome : LinkEnd) : Shadows lobby (.ended outcome) (.ended outcome)

end Link

def SocketStep.isWhole (count : Nat) : SocketStep → Bool
  | .send _ => false
  | .hear spare _ _ => count ≤ spare + 1
  | .hangUp | .advance _ | .elsewhere _ => true

namespace Socket

structure Shadows (socket shadow : Socket) : Prop where
  phases : Link.Shadows shadow.registry.lobby socket.link.phase shadow.link.phase
  alike : socket.registry.Alike shadow.registry
  wired : shadow.registry.lobby.Wired
  written : shadow.written = socket.written
  hungUp : shadow.hungUp = socket.hungUp
  unread : shadow.unread = []

variable {socket shadow : Socket}

theorem Shadows.go (shadows : socket.Shadows shadow) {after other : LinkStep}
    (phases : Link.Shadows other.registry.lobby after.link.phase other.link.phase)
    (alike : after.registry.Alike other.registry) (wired : other.registry.lobby.Wired)
    (written : other.written = after.written) : (socket.go after).Shadows (shadow.go other) := by
  refine ⟨phases, alike, wired, ?_, shadows.hungUp, shadows.unread⟩
  change shadow.written ++ other.written = socket.written ++ after.written
  rw [shadows.written, written]

theorem Shadows.goAlone (shadows : socket.Shadows shadow) {after : LinkStep}
    (phases : Link.Shadows shadow.registry.lobby after.link.phase shadow.link.phase)
    (alike : after.registry.Alike shadow.registry) (silent : after.written = []) :
    (socket.go after).Shadows shadow := by
  rw [← go_idle shadow]
  exact shadows.go phases alike shadows.wired silent.symm

theorem Shadows.withUnread (shadows : socket.Shadows shadow) (unread : Bytes) :
    Shadows { socket with unread } shadow :=
  ⟨shadows.phases, shadows.alike, shadows.wired, shadows.written, shadows.hungUp, shadows.unread⟩

theorem Shadows.write {routed : Routed} (shadows : socket.Shadows shadow)
    (here : socket.link.phase = .writing routed) (there : shadow.link.phase = .writing routed) (now : Nat) :
    (socket.step (.advance now)).Shadows (shadow.step (.advance now)) := by
  obtain ⟨bytes, response⟩ := shadows.alike.read routed.response Link.writeSize
  have after : (socket.registry.read routed.response Link.writeSize).2.2.Alike
      (shadow.registry.read routed.response Link.writeSize).2.2 :=
    shadows.alike.serve (.read routed.response Link.writeSize)
  have wired : (shadow.registry.read routed.response Link.writeSize).2.2.lobby.Wired :=
    Registry.wired_serve shadows.wired (.read routed.response Link.writeSize)
  obtain ⟨_, _, stepped, -, mine⟩ := advance_writing here now
  obtain ⟨_, _, followed, -, its⟩ := advance_writing there now
  rw [stepped, followed]
  -- The two reads give the same, so the connection and its shadow do the same after them.
  cases mine with
  | more read filled =>
    rw [read] at bytes response after
    cases its with
    | more same =>
      rw [same] at bytes response after wired
      obtain rfl := bytes
      obtain rfl := response
      exact shadows.go (.writing _) after wired rfl
    | done same | idle same =>
      rw [same] at bytes
      exact absurd bytes.symm filled
  | done read finished =>
    rw [read] at bytes response after
    cases its with
    | more same filled =>
      rw [same] at bytes
      exact absurd bytes filled
    | done same =>
      rw [same] at response after wired
      obtain rfl := response
      exact shadows.go (.ended _) (after.serve (.close { routed with response := _ } now))
        (Registry.wired_serve wired (.close { routed with response := _ } now)) rfl
    | idle same going stream =>
      rw [same] at response after
      obtain rfl := response
      rcases finished with finished | reply
      · rw [after.isFinished, finished] at going
        cases going
      · exact absurd reply stream
  | idle read going stream =>
    rw [read] at bytes response after
    cases its with
    | more same filled =>
      rw [same] at bytes
      exact absurd bytes filled
    | done same finished =>
      rw [same] at response after
      obtain rfl := response
      rcases finished with finished | reply
      · rw [after.isFinished, going] at finished
        cases finished
      · exact absurd reply stream
    | idle same still =>
      rw [same] at response after wired
      obtain rfl := response
      obtain ⟨asked, watching⟩ := routed
      cases asked with
      | reply reply => exact absurd (congrArg (fun found => found.2.1.stream?) same).symm stream
      | stream num watch =>
        have kept := Registry.stream_read shadow.registry num watch Link.writeSize
        rw [same] at kept
        obtain rfl := kept
        have rests := Registry.rests_of_read (by decide) same still
        exact shadows.go (.waiting watching rests) after wired rfl

theorem advance_waiting {routed : Routed} (waiting : socket.link.phase = .waiting routed) (now : Nat) :
    socket.step (.advance now) =
      if Link.isNotified socket.registry routed.response then
        socket.go (socket.link.enter (Link.takeNotice socket.registry routed.response) (.writing routed))
      else socket := by
  rw [Socket.step, Link.advance, waiting]
  simp only
  split
  next => rfl
  next => exact go_idle socket

theorem Shadows.woken {num : RoomNum} {watch : WatchId} {watching : Option PersonId}
    (shadows : socket.Shadows shadow) (rests : shadow.registry.lobby.Rests num watch)
    (here : socket.link.phase = .writing ⟨.stream num watch, watching⟩)
    (there : shadow.link.phase = .waiting ⟨.stream num watch, watching⟩) (now : Nat) :
    ∃ others : List SocketStep, (others = [] ∨ others = [.advance now, .advance now]) ∧
      (socket.step (.advance now)).Shadows (shadow.run others) := by
  by_cases notified : Link.isNotified shadow.registry (.stream num watch) = true
  · have noticed := advance_waiting there now
    rw [if_pos notified] at noticed
    have level : socket.Shadows (shadow.step (.advance now)) := by
      rw [noticed, ← go_idle socket]
      refine shadows.go ?_ ?_ (Registry.wired_serve shadows.wired (.takeNotice (.stream num watch))) rfl
      · change Link.Shadows _ socket.link.phase _
        rw [here]
        exact .writing _
      · exact shadows.alike.trans (Registry.alike_takeNotice shadow.registry (.stream num watch))
    exact ⟨_, Or.inr rfl, level.write here (by rw [noticed]; rfl) now⟩
  · refine ⟨[], Or.inl rfl, ?_⟩
    rw [Bool.not_eq_true] at notified
    obtain ⟨nothing, unchanged, going⟩ := Registry.read_resting rests notified Link.writeSize
    obtain ⟨bytes, _⟩ := shadows.alike.read (.stream num watch) Link.writeSize
    have after : (socket.registry.read (.stream num watch) Link.writeSize).2.2.Alike
        (shadow.registry.read (.stream num watch) Link.writeSize).2.2 :=
      shadows.alike.serve (.read (.stream num watch) Link.writeSize)
    have response := Registry.stream_read socket.registry num watch Link.writeSize
    obtain ⟨_, _, stepped, -, mine⟩ := advance_writing here now
    rw [after.isFinished] at going
    rw [stepped]
    cases mine with
    | more read filled =>
      rw [read] at bytes
      exact absurd (bytes.symm.trans nothing) filled
    | done read finished =>
      rw [read] at response going
      obtain rfl := response
      rcases finished with finished | reply
      · cases going.symm.trans finished
      · cases reply
    | idle read =>
      rw [read] at response after
      obtain rfl := response
      refine shadows.goAlone ?_ (after.trans unchanged.symm) rfl
      rw [there]
      exact .waiting watching rests

theorem Shadows.wait {num : RoomNum} {watch : WatchId} {watching : Option PersonId}
    (shadows : socket.Shadows shadow) (rests : shadow.registry.lobby.Rests num watch)
    (here : socket.link.phase = .waiting ⟨.stream num watch, watching⟩)
    (there : shadow.link.phase = .waiting ⟨.stream num watch, watching⟩) (now : Nat) :
    ∃ others : List SocketStep, (others = [] ∨ others = [.advance now]) ∧
      (socket.step (.advance now)).Shadows (shadow.run others) := by
  have mine := advance_waiting here now
  have its := advance_waiting there now
  by_cases noticed : Link.isNotified socket.registry (.stream num watch) = true
  · rw [if_pos noticed] at mine
    by_cases notified : Link.isNotified shadow.registry (.stream num watch) = true
    · rw [if_pos notified] at its
      refine ⟨_, Or.inr rfl, ?_⟩
      change (socket.step (.advance now)).Shadows (shadow.step (.advance now))
      rw [mine, its]
      exact shadows.go (.writing _) (shadows.alike.serve (.takeNotice (.stream num watch)))
        (Registry.wired_serve shadows.wired (.takeNotice (.stream num watch))) rfl
    · refine ⟨[], Or.inl rfl, ?_⟩
      rw [mine]
      have unchanged := Registry.alike_takeNotice socket.registry (.stream num watch)
      refine shadows.goAlone ?_ (unchanged.symm.trans shadows.alike) rfl
      rw [there]
      exact .woken watching rests
  · rw [if_neg noticed] at mine
    refine ⟨[], Or.inl rfl, ?_⟩
    rw [mine]
    exact shadows

theorem hear_waiting {routed : Routed} (waiting : socket.link.phase = .waiting routed) (spare now : Nat)
    (draw : Draw) :
    socket.step (.hear spare now draw) =
      if socket.unread ≠ [] then
        { socket.go (socket.link.enter socket.registry (.writing routed)) with
          unread := socket.unread.drop (spare + 1) }
      else if socket.hungUp then socket.go (socket.link.finish socket.registry routed now)
      else socket := by
  have listens : socket.link.listens = true := by rw [Link.listens, waiting]
  rw [Socket.step, listens, Link.receive, Link.receiveEnd, waiting]
  rfl

theorem hear_deaf (deaf : socket.link.listens = false) (spare now : Nat) (draw : Draw) :
    socket.step (.hear spare now draw) = socket := by
  rw [Socket.step, deaf]
  rfl

theorem Shadows.hear (shadows : socket.Shadows shadow) (count spare now : Nat) (draw : Draw) :
    ∃ others : List SocketStep, (others = [] ∨ others = [.hear count now draw]) ∧
      (socket.step (.hear spare now draw)).Shadows (shadow.run others) := by
  have still (deaf : socket.link.listens = false) :
      ∃ others : List SocketStep, (others = [] ∨ others = [.hear count now draw]) ∧
        (socket.step (.hear spare now draw)).Shadows (shadow.run others) := by
    rw [hear_deaf deaf]
    exact ⟨[], Or.inl rfl, shadows⟩
  have phases := shadows.phases
  generalize here : socket.link.phase = mine at phases
  generalize there : shadow.link.phase = its at phases
  cases phases with
  | writing | woken | ended => exact still (by rw [Link.listens, here])
  | waiting watching rests =>
    rename_i num watch
    rw [hear_waiting here]
    by_cases empty : socket.unread = []
    · rw [if_neg (not_not.2 empty)]
      by_cases hungUp : socket.hungUp = true
      · rw [if_pos hungUp]
        refine ⟨_, Or.inr rfl, ?_⟩
        change Shadows _ (shadow.step (.hear count now draw))
        rw [hear_waiting there, if_neg (not_not.2 shadows.unread), if_pos (shadows.hungUp.trans hungUp)]
        exact shadows.go (.ended .closed) (shadows.alike.serve (.close ⟨.stream num watch, watching⟩ now))
          (Registry.wired_serve shadows.wired (.close ⟨.stream num watch, watching⟩ now)) rfl
      · rw [if_neg hungUp]
        exact ⟨[], Or.inl rfl, shadows⟩
    · rw [if_pos empty]
      refine ⟨[], Or.inl rfl, Shadows.withUnread (shadows.goAlone ?_ shadows.alike rfl) _⟩
      rw [there]
      exact .woken watching rests

theorem Shadows.advance (shadows : socket.Shadows shadow) (now : Nat) :
    ∃ others : List SocketStep, (∀ other ∈ others, other = .advance now) ∧
      (socket.step (.advance now)).Shadows (shadow.run others) := by
  have phases := shadows.phases
  generalize here : socket.link.phase = mine at phases
  generalize there : shadow.link.phase = its at phases
  cases phases with
  | writing routed => exact ⟨[.advance now], by simp, shadows.write here there now⟩
  | waiting watching rests =>
    obtain ⟨others, rfl | rfl, later⟩ := shadows.wait rests here there now
    · exact ⟨[], by simp, later⟩
    · exact ⟨[.advance now], by simp, later⟩
  | woken watching rests =>
    obtain ⟨others, rfl | rfl, later⟩ := shadows.woken rests here there now
    · exact ⟨[], by simp, later⟩
    · exact ⟨[.advance now, .advance now], by simp, later⟩
  | ended outcome =>
    have still : socket.link.advance socket.registry now = socket.link.idle socket.registry := by
      rw [Link.advance, here]
    refine ⟨[], by simp, ?_⟩
    rw [Socket.step, still, go_idle]
    exact shadows

theorem Shadows.elsewhere (shadows : socket.Shadows shadow) (step : ServerStep) :
    (socket.step (.elsewhere step)).Shadows (shadow.step (.elsewhere step)) := by
  have alike := shadows.alike.serve step
  have wired := Registry.wired_serve shadows.wired step
  have phases := shadows.phases
  have own : shadow.owns step = socket.owns step := by
    have same : shadow.link.stream? = socket.link.stream? := by
      rw [Link.stream?, Link.stream?]
      generalize socket.link.phase = mine at phases ⊢
      generalize shadow.link.phase = its at phases ⊢
      cases phases <;> rfl
    rw [owns, owns, same]
  rw [Socket.step, Socket.step, own]
  by_cases mine : socket.owns step = true
  · rw [if_pos mine, if_pos mine]
    exact shadows
  · rw [if_neg mine, if_neg mine]
    refine ⟨?_, alike, wired, shadows.written, shadows.hungUp, shadows.unread⟩
    have rests {num : RoomNum} {watch : WatchId} (rests : shadow.registry.lobby.Rests num watch)
        (here : socket.link.stream? = some (num, watch)) : (shadow.registry.serve step).lobby.Rests num watch := by
      refine Registry.rests_serve rests shadows.wired fun same => mine ?_
      rw [owns, same, here]
      exact decide_eq_true rfl
    rw [Link.stream?] at rests
    change Link.Shadows (shadow.registry.serve step).lobby socket.link.phase shadow.link.phase
    generalize socket.link.phase = mine at phases rests ⊢
    generalize shadow.link.phase = its at phases ⊢
    cases phases with
    | writing routed => exact .writing routed
    | waiting watching quiet => exact .waiting watching (rests quiet rfl)
    | woken watching quiet => exact .woken watching (rests quiet rfl)
    | ended outcome => exact .ended outcome

/-- A connection keeps a shadow that is told the same of the server, and of its peer only whether
it hung up. -/
theorem Shadows.step (shadows : socket.Shadows shadow) (count : Nat) (step : SocketStep) :
    ∃ others : List SocketStep, others.all (·.isWhole count) = true ∧
      others.filter (·.isOuter) = [step].filter (·.isOuter) ∧ (socket.step step).Shadows (shadow.run others) := by
  cases step with
  | send bytes =>
    refine ⟨[], rfl, rfl, ?_⟩
    rw [Socket.step]
    split
    next => exact shadows
    next => exact shadows.withUnread _
  | hangUp =>
    exact ⟨[.hangUp], rfl, rfl, shadows.phases, shadows.alike, shadows.wired, shadows.written, rfl, shadows.unread⟩
  | hear spare now draw =>
    obtain ⟨others, rfl | rfl, later⟩ := shadows.hear count spare now draw
    · exact ⟨[], rfl, rfl, later⟩
    · refine ⟨[.hear count now draw], ?_, rfl, later⟩
      rw [List.all_cons, List.all_nil, SocketStep.isWhole, Bool.and_true]
      exact decide_eq_true (Nat.le_succ count)
  | advance now =>
    obtain ⟨others, only, later⟩ := shadows.advance now
    refine ⟨others, List.all_eq_true.2 fun other member => only other member ▸ rfl, ?_, later⟩
    exact List.filter_eq_nil_iff.2 fun other member => only other member ▸ Bool.false_ne_true
  | elsewhere step => exact ⟨[.elsewhere step], rfl, rfl, shadows.elsewhere step⟩

theorem Shadows.run (shadows : socket.Shadows shadow) (count : Nat) (steps : List SocketStep) :
    ∃ others : List SocketStep, others.all (·.isWhole count) = true ∧
      others.filter (·.isOuter) = steps.filter (·.isOuter) ∧ (socket.run steps).Shadows (shadow.run others) := by
  induction steps generalizing socket shadow with
  | nil => exact ⟨[], rfl, rfl, shadows⟩
  | cons step rest ih =>
    obtain ⟨first, whole, outer, later⟩ := shadows.step count step
    obtain ⟨others, wholes, outers, ran⟩ := ih later
    refine ⟨first ++ others, ?_, ?_, ?_⟩
    · rw [List.all_append, whole, wholes]
      rfl
    · rw [List.filter_append, outer, outers, ← List.filter_append]
      rfl
    · rw [run_append]
      exact ran

/-- Connections that wrote the same, are over or not alike, and left the same persons, the same
names of rooms and the same said in every room. -/
structure Matches (socket other : Socket) : Prop where
  written : other.written = socket.written
  outcome : other.link.outcome? = socket.link.outcome?
  persons : other.registry.persons = socket.registry.persons
  pending : other.registry.lobby.pending = socket.registry.lobby.pending
  conversations : ∀ num, other.registry.conversation? num = socket.registry.conversation? num

theorem Shadows.matches (shadows : socket.Shadows shadow) : socket.Matches shadow where
  written := shadows.written
  outcome := by
    have phases := shadows.phases
    rw [Link.outcome?, Link.outcome?]
    generalize socket.link.phase = mine at phases ⊢
    generalize shadow.link.phase = its at phases ⊢
    cases phases <;> rfl
  persons := shadows.alike.persons
  pending := shadows.alike.lobby.pending
  conversations := shadows.alike.conversation?

/-- A shadow with the head of a request that it did not look at yet. -/
structure Attends (shadow : Socket) (head : Bytes) (socket : Socket) : Prop where
  remote : shadow.link = { remote := socket.link.remote }
  registry : shadow.registry = socket.registry
  unread : shadow.unread = head
  hungUp : shadow.hungUp = socket.hungUp
  written : shadow.written = []

variable {heard all head : Bytes} {used : Nat} {reader : HeadReader}

theorem Attends.hear (attends : shadow.Attends head socket)
    (finished : ({} : HeadReader).feed head = (.finished used, reader)) (short : head.length ≤ used) (now : Nat)
    (draw : Draw) :
    shadow.step (.hear used now draw) =
      { shadow.go (shadow.link.enter
          (shadow.registry.serve (.route reader.target reader.keyHash shadow.link.remote now draw))
          (.writing (shadow.registry.route reader.target reader.keyHash shadow.link.remote now draw).1)) with
        unread := [] } := by
  have some : head ≠ [] := by
    rintro rfl
    have nothing : ({} : HeadReader).feed [] = (.more, {}) := HeadReader.feedFrom_nil rfl
    cases nothing.symm.trans finished
  have listens : shadow.link.listens = true := by rw [attends.remote]; rfl
  rw [Socket.step, listens, attends.unread, if_neg (by decide), if_pos some,
    List.take_of_length_le (Nat.le_succ_of_le short), List.drop_of_length_le (Nat.le_succ_of_le short)]
  have phase : shadow.link.phase = .head {} := by rw [attends.remote]
  rw [Link.receive, phase]
  simp only [finished]
  rfl

theorem Attends.step (attends : shadow.Attends head socket) (reading : socket.Reading heard) {step : SocketStep}
    (other : ∀ spare now draw, step ≠ .hear spare now draw) :
    (shadow.run ([step].filter (·.isOuter))).Attends head (socket.step step) := by
  obtain ⟨remote, registry, unread, hungUp, written⟩ := attends
  cases step with
  | send bytes =>
    rw [Socket.step]
    split
    next => exact ⟨remote, registry, unread, hungUp, written⟩
    next => exact ⟨remote, registry, unread, hungUp, written⟩
  | hangUp => exact ⟨remote, registry, unread, rfl, written⟩
  | hear spare now draw => exact absurd rfl (other spare now draw)
  | advance now =>
    rw [(reading.advance now).1]
    exact ⟨remote, registry, unread, hungUp, written⟩
  | elsewhere step =>
    have mine : socket.owns step = false := by
      rw [owns, Link.stream?, reading.head]
      cases step.stream? <;> rfl
    have its : shadow.owns step = false := by
      rw [owns, remote]
      cases step.stream? <;> rfl
    change (shadow.step (.elsewhere step)).Attends head (socket.step (.elsewhere step))
    rw [Socket.step, Socket.step, mine, its]
    exact ⟨remote, congrArg (·.serve step) registry, unread, hungUp, written⟩

theorem Attends.routed (attends : shadow.Attends head socket) (wired : socket.registry.lobby.Wired) {later : Socket}
    {rest : Bytes} (written : socket.written ++ [] = []) (now : Nat) (draw : Draw)
    (same : later = { socket.go (socket.link.enter
        (socket.registry.serve (.route reader.target reader.keyHash socket.link.remote now draw))
        (.writing (socket.registry.route reader.target reader.keyHash socket.link.remote now draw).1)) with
      unread := rest })
    (finished : ({} : HeadReader).feed head = (.finished used, reader)) (short : head.length ≤ used) :
    later.Shadows (shadow.step (.hear used now draw)) := by
  have remote : shadow.link.remote = socket.link.remote := by rw [attends.remote]
  rw [attends.hear finished short, same, attends.registry, remote]
  constructor
  case phases => exact .writing _
  case alike => exact .refl _
  case wired => exact Registry.wired_serve wired _
  case written => exact (congrArg (· ++ []) attends.written).trans written.symm
  case hungUp => exact attends.hungUp
  case unread => rfl

theorem Attends.follows (attends : shadow.Attends head socket) (wired : socket.registry.lobby.Wired) {later : Socket}
    {rest : Bytes} (written : socket.written ++ [] = []) (now : Nat) (draw : Draw)
    (same : later = { socket.go (socket.link.enter
        (socket.registry.serve (.route reader.target reader.keyHash socket.link.remote now draw))
        (.writing (socket.registry.route reader.target reader.keyHash socket.link.remote now draw).1)) with
      unread := rest })
    (finished : ({} : HeadReader).feed head = (.finished used, reader)) (short : head.length ≤ used)
    (steps : List SocketStep) :
    ∃ others : List SocketStep, others.all (·.isWhole used) = true ∧
      others.filter (·.isOuter) = steps.filter (·.isOuter) ∧ (later.run steps).Matches (shadow.run others) := by
  have routed := attends.routed wired written now draw same finished short
  obtain ⟨others, wholes, outer, shadows⟩ := routed.run used steps
  refine ⟨.hear used now draw :: others, ?_, outer, shadows.matches⟩
  rw [List.all_cons, wholes, SocketStep.isWhole, Bool.and_true]
  exact decide_eq_true (Nat.le_succ used)

theorem Attends.matches (attends : shadow.Attends head socket) (reading : socket.Reading heard) :
    socket.Matches shadow where
  written := attends.written.trans reading.written.symm
  outcome := by rw [attends.remote, Link.outcome?, Link.outcome?, reading.head]
  persons := congrArg Registry.persons attends.registry
  pending := congrArg (fun registry => registry.lobby.pending) attends.registry
  conversations num := congrArg (fun registry => Registry.conversation? registry num) attends.registry

/-- A connection that is sent the head of a request does what its shadow does that is sent the
head alone. -/
theorem Reading.matches (reading : socket.Reading heard) (attends : shadow.Attends head socket)
    (wired : socket.registry.lobby.Wired) (steps : List SocketStep)
    (whole : heard ++ socket.coming steps = all) (finished : (({} : HeadReader).feed all).1 = .finished used)
    (start : head = all.take used) :
    ∃ others : List SocketStep, others.all (·.isWhole used) = true ∧
      others.filter (·.isOuter) = steps.filter (·.isOuter) ∧ (socket.run steps).Matches (shadow.run others) := by
  induction steps generalizing socket shadow heard with
  | nil => exact ⟨[], rfl, rfl, attends.matches reading⟩
  | cons step rest ih =>
    -- Only a look for bytes sets the two apart; any other step the shadow takes too, or has no need of.
    by_cases hears : ∃ spare now draw, step = .hear spare now draw
    · obtain ⟨spare, now, draw, rfl⟩ := hears
      have hears := reading.hears spare now draw
      rw [List.filter_cons_of_neg Bool.false_ne_true]
      change ∃ others : List SocketStep, _ ∧ _ ∧ ((socket.step (.hear spare now draw)).run rest).Matches _
      generalize socket.step (.hear spare now draw) = later at hears ⊢
      generalize socket.deeds (.hear spare now draw) = deeds at hears
      cases hears with
      | nothing empty there => exact ih reading attends wired whole
      | left empty hungUp =>
        rw [coming, empty, if_pos hungUp, List.append_nil, List.append_nil] at whole
        rw [← whole, reading.more] at finished
        cases finished
      | more some cut more =>
        obtain ⟨further, still⟩ := reading.further whole cut more rfl
        obtain ⟨remote, registry, unread, hungUp, written⟩ := attends
        exact ih further ⟨remote, registry, unread, hungUp, written⟩ wired still
      | failed cut failed =>
        rw [feed_over whole cut (by simp [failed]), failed] at finished
        cases finished
      | finished cut ended =>
        rename_i piece left count reader
        have alone := HeadReader.feed_take finished
        have decided := feed_over whole cut (by simp [ended])
        rw [← start, decided, ended] at alone
        rw [decided, ended] at finished
        obtain rfl : count = used := HeadProgress.finished.inj finished
        have short : head.length ≤ count := start ▸ List.length_take_le count all
        have silent : socket.written ++ [] = [] := (List.append_nil socket.written).trans reading.written
        exact attends.follows wired silent now draw rfl alone short rest
    · have other : ∀ spare now draw, step ≠ .hear spare now draw :=
        fun spare now draw same => hears ⟨spare, now, draw, same⟩
      obtain ⟨link, written, nothing, same⟩ := reading.kept other
      have later : (socket.step step).Reading heard :=
        ⟨link ▸ reading.head, reading.more, written ▸ reading.written⟩
      have wires : (socket.step step).registry.lobby.Wired := by
        rw [registry_step]
        exact Registry.wired_serveAll wired _
      obtain ⟨others, wholes, outer, matched⟩ := ih later (attends.step reading other) wires (same rest ▸ whole)
      refine ⟨[step].filter (·.isOuter) ++ others, ?_, ?_, ?_⟩
      · rw [List.all_append, wholes, Bool.and_true]
        cases step with
        | hear spare now draw => exact absurd rfl (other spare now draw)
        | send | hangUp | advance | elsewhere => rfl
      · rw [List.filter_append, List.filter_filter, outer]
        simp only [Bool.and_self, List.filter_cons, List.filter_nil]
        split <;> rfl
      · rw [run_append]
        exact matched

end Socket

end TileRoom
