import TileRoom.Proofs.Shadowing

/-! A connection whose peer hung up comes to an end: it takes what its peer had sent, writes what
there is to tell, and closes. So each connection routes at most one request, answers it as if
nothing else was sent, and returns. -/

namespace TileRoom

namespace Registry

variable {registry : Registry} {num : RoomNum} {watch : WatchId}

/-- A stream has at most so many bytes to give, as its room is. -/
def Owes (registry : Registry) (num : RoomNum) (watch : WatchId) (count : Nat) : Prop :=
  ∀ size, (registry.read (.stream num watch) size).1.length ≤ count

theorem exists_owes (registry : Registry) (num : RoomNum) (watch : WatchId) :
    ∃ count, registry.Owes num watch count := by
  have nothing (empty : ∀ size, (registry.read (.stream num watch) size).1 = []) :
      ∃ count, registry.Owes num watch count :=
    ⟨0, fun size => by rw [empty]; exact Nat.le_refl 0⟩
  cases there : registry.lobby.room? num with
  | none => exact nothing fun size => by rw [Registry.read, there]
  | some room =>
    cases found : room.stream? watch with
    | none => exact nothing fun size => by rw [read_there there, Room.read, found]
    | some stream =>
      obtain ⟨count, bound⟩ := stream.exists_bound room.conversation
      refine ⟨count, fun size => ?_⟩
      rw [read_there there, (Room.read_some found size).1]
      exact bound size

theorem Owes.read {count : Nat} (owes : registry.Owes num watch count) (first : Nat) :
    (registry.read (.stream num watch) first).1.length ≤ count ∧
      (registry.read (.stream num watch) first).2.2.Owes num watch
        (count - (registry.read (.stream num watch) first).1.length) := by
  refine ⟨owes first, fun second => ?_⟩
  have both : (registry.read (.stream num watch) (first + second)).1 =
      (registry.read (.stream num watch) first).1 ++
        ((registry.read (.stream num watch) first).2.2.read (.stream num watch) second).1 := by
    cases there : registry.lobby.room? num with
    | none => simp only [Registry.read, there, List.append_nil]
    | some room =>
      have later := room?_setRoom_self there (room.read watch first).2
      rw [read_there there, read_there there, read_there later]
      cases found : room.stream? watch with
      | none => simp only [Room.read, found, List.append_nil]
      | some stream =>
        obtain ⟨bytes, after, quiet⟩ := Room.read_some found first
        rw [(Room.read_some found (first + second)).1, (Room.read_some after second).1, bytes, quiet,
          WatchStream.read_add]
  have all := owes (first + second)
  rw [both, List.length_append] at all
  omega

end Registry

def Link.isReading (link : Link) : Bool :=
  match link.phase with
  | .head _ => true
  | .writing _ | .waiting _ | .ended _ => false

/-- A connection looks for what its peer sent, and goes on. -/
structure Round where
  spare : Nat
  now : Nat
  draw : Draw

namespace Socket

def round (socket : Socket) (round : Round) : Socket :=
  (socket.step (.hear round.spare round.now round.draw)).step (.advance round.now)

/-- However its rounds go, a connection comes to a goal after some of them. -/
inductive Comes (goal : Socket → Prop) : Socket → Prop where
  | here {socket : Socket} (here : goal socket) : Comes goal socket
  | later {socket : Socket} (later : ∀ round, (socket.round round).Comes goal) : Comes goal socket

def Returns : Socket → Prop :=
  Comes fun socket => socket.link.outcome? ≠ none

variable {socket : Socket}

theorem returns_of_ended {outcome : LinkEnd} (ended : socket.link.phase = .ended outcome) : socket.Returns := by
  refine .here ?_
  rw [Link.outcome?, ended]
  exact Option.some_ne_none outcome

theorem advance_ended {outcome : LinkEnd} (ended : socket.link.phase = .ended outcome) (now : Nat) :
    (socket.step (.advance now)).link.phase = .ended outcome :=
  (step_ended ended (.advance now)).1 ▸ ended

theorem round_writing {routed : Routed} (writing : socket.link.phase = .writing routed) (round : Round) :
    socket.round round = socket.step (.advance round.now) := by
  rw [Socket.round, hear_deaf (by rw [Link.listens, writing])]

theorem Returns.advance {routed : Routed} (returns : socket.Returns)
    (writing : socket.link.phase = .writing routed) (now : Nat) : (socket.step (.advance now)).Returns := by
  cases returns with
  | here ended =>
    rw [Link.outcome?, writing] at ended
    exact absurd rfl ended
  | later later =>
    have next := later ⟨0, now, ⟨[], []⟩⟩
    rwa [round_writing writing] at next

theorem returns_reply {reply : Reply} {watching : Option PersonId}
    (writing : socket.link.phase = .writing ⟨.reply reply, watching⟩) : socket.Returns := by
  induction measured : reply.data.length - reply.pos using Nat.strongRecOn generalizing socket reply with
  | ind bound ih =>
    subst measured
    refine .later fun round => ?_
    rw [round_writing writing]
    obtain ⟨data, next⟩ := reply.read_spec Link.writeSize
    obtain ⟨_, _, stepped, -, writes⟩ := advance_writing writing round.now
    have found : socket.registry.read (.reply reply) Link.writeSize =
        ((reply.read Link.writeSize).1, .reply (reply.read Link.writeSize).2, socket.registry) := rfl
    rw [stepped]
    cases writes with
    | more read filled =>
      obtain ⟨rfl, rest⟩ := Prod.mk.inj (found.symm.trans read)
      obtain ⟨rfl, rfl⟩ := Prod.mk.inj rest
      refine ih _ ?_ rfl rfl
      have longer := congrArg List.length next
      have some := List.length_pos_iff.2 filled
      rw [List.length_append, List.length_take, List.length_take] at longer
      rw [data]
      omega
    | done read finished => exact returns_of_ended rfl
    | idle read going stream =>
      obtain ⟨_, rest⟩ := Prod.mk.inj (found.symm.trans read)
      obtain ⟨rfl, rfl⟩ := Prod.mk.inj rest
      exact absurd rfl stream

theorem returns_stream {num : RoomNum} {watch : WatchId} {watching : Option PersonId}
    (hungUp : socket.hungUp = true)
    (here : socket.link.phase = .writing ⟨.stream num watch, watching⟩ ∨
      socket.link.phase = .waiting ⟨.stream num watch, watching⟩) : socket.Returns := by
  obtain ⟨count, owes⟩ := socket.registry.exists_owes num watch
  -- Bytes are told less and less, and until some are told each round takes something of the peer.
  induction count using Nat.strongRecOn generalizing socket with
  | ind count outer =>
    induction measured : 2 * socket.unread.length + (if socket.link.listens then 0 else 1) using Nat.strongRecOn
      generalizing socket with
    | ind measure inner =>
      subst measured
      refine .later fun round => ?_
      rcases here with writing | waiting
      · rw [round_writing writing]
        obtain ⟨some, left⟩ := owes.read Link.writeSize
        have response := Registry.stream_read socket.registry num watch Link.writeSize
        obtain ⟨_, _, stepped, -, writes⟩ := advance_writing writing round.now
        have busy : socket.link.listens = false := by rw [Link.listens, writing]
        rw [stepped]
        cases writes with
        | more read filled =>
          rename_i bytes answer after
          rw [read] at response some left
          obtain rfl := response
          have told := List.length_pos_iff.2 filled
          have less : count - bytes.length < count := Nat.sub_lt (Nat.lt_of_lt_of_le told some) told
          exact outer _ less hungUp (Or.inl rfl) left
        | done read finished => exact returns_of_ended rfl
        | idle read going stream =>
          rw [read] at response left
          obtain rfl := response
          refine inner _ ?_ hungUp (Or.inr rfl) left rfl
          rw [busy]
          exact Nat.lt_succ_self _
      · have idle : socket.link.listens = true := by rw [Link.listens, waiting]
        rw [Socket.round, hear_waiting waiting]
        by_cases empty : socket.unread = []
        · rw [if_neg (not_not.2 empty), if_pos hungUp]
          exact returns_of_ended (advance_ended rfl round.now)
        · rw [if_pos empty]
          refine Returns.advance ?_ rfl round.now
          refine inner _ ?_ hungUp (Or.inl rfl) owes rfl
          have some := List.length_pos_iff.2 empty
          rw [idle]
          change 2 * (socket.unread.drop (round.spare + 1)).length + 1 < 2 * socket.unread.length + 0
          rw [List.length_drop]
          omega

theorem returns_routed {routed : Routed} (writing : socket.link.phase = .writing routed)
    (leaves : socket.hungUp = true ∨ routed.response.stream? = none) : socket.Returns := by
  obtain ⟨response, watching⟩ := routed
  cases response with
  | reply reply => exact returns_reply writing
  | stream num watch =>
    rcases leaves with hungUp | reply
    · exact returns_stream hungUp (Or.inl writing)
    · cases reply

theorem Reading.comes {goal : Socket → Prop} {heard : Bytes} (reading : socket.Reading heard)
    (leaves : socket.hungUp = true ∨ (({} : HeadReader).feed (heard ++ socket.unread)).1 ≠ .more)
    (ended : ∀ {later : Socket} {outcome : LinkEnd}, later.link.phase = .ended outcome → later.Comes goal)
    (routed : ∀ {later : Socket} {routed : Routed} {used : Nat} (now : Nat), later.link.phase = .writing routed →
      later.hungUp = socket.hungUp → (({} : HeadReader).feed (heard ++ socket.unread)).1 = .finished used →
      (later.step (.advance now)).Comes goal) : socket.Comes goal := by
  induction measured : socket.unread.length using Nat.strongRecOn generalizing socket heard with
  | ind bound ih =>
    subst measured
    refine .later fun round => ?_
    have hears := reading.hears round.spare round.now round.draw
    rw [Socket.round]
    generalize socket.step (.hear round.spare round.now round.draw) = later at hears ⊢
    generalize socket.deeds (.hear round.spare round.now round.draw) = deeds at hears
    cases hears with
    | nothing empty there =>
      rcases leaves with hungUp | stops
      · cases there.symm.trans hungUp
      · rw [empty, List.append_nil, reading.more] at stops
        exact absurd rfl stops
    | left empty hungUp => exact ended (advance_ended rfl round.now)
    | failed cut failed => exact ended (advance_ended rfl round.now)
    | more some cut more =>
      rename_i piece rest
      have further : Reading { socket.go (socket.link.enter socket.registry
          (.head (({} : HeadReader).feed (heard ++ piece)).2)) with unread := rest } (heard ++ piece) :=
        ⟨rfl, more, (List.append_nil socket.written).trans reading.written⟩
      rw [(further.advance round.now).1]
      rw [← cut, ← List.append_assoc] at leaves routed
      refine ih _ ?_ further leaves routed rfl
      have some := List.length_pos_iff.2 some
      rw [← cut, List.length_append]
      change rest.length < _
      omega
    | finished cut finished =>
      rename_i used _
      have whole : (({} : HeadReader).feed (heard ++ socket.unread)).1 = .finished used := by
        rw [← cut, ← List.append_assoc, HeadReader.feed_append_over (by simp [finished]), finished]
      exact routed round.now rfl rfl whole

theorem Reading.returns {heard : Bytes} (reading : socket.Reading heard)
    (leaves : socket.hungUp = true ∨
      ∃ cause, (({} : HeadReader).feed (heard ++ socket.unread)).1 = .failed cause) :
    socket.Returns := by
  have stops : socket.hungUp = true ∨ (({} : HeadReader).feed (heard ++ socket.unread)).1 ≠ .more := by
    refine leaves.imp_right ?_
    rintro ⟨cause, failed⟩
    simp [failed]
  refine reading.comes stops returns_of_ended fun now writing same finished => ?_
  rcases leaves with hungUp | ⟨cause, failed⟩
  · exact Returns.advance (returns_routed writing (Or.inl (same.trans hungUp))) writing now
  · cases failed.symm.trans finished

theorem Reading.comes_out {heard : Bytes} (reading : socket.Reading heard)
    (stops : (({} : HeadReader).feed (heard ++ socket.unread)).1 ≠ .more) :
    socket.Comes (·.link.isReading = false) := by
  refine reading.comes (Or.inr stops) (fun ended => .here (by rw [Link.isReading, ended])) ?_
  intro later routed used now writing same finished
  obtain ⟨_, _, stepped, -, writes⟩ := advance_writing writing now
  rw [stepped]
  cases writes <;> exact .here rfl

/-- A connection that routed a request tends to the response and closes it at its end. A reply it
writes from the first byte on, and all of it before it is over. -/
structure Answered (routed : Routed) (socket : Socket) (done : List ServerStep) : Prop where
  tends : ∃ tending closing, done = tending ++ closing ∧ routed.response.Tended tending ∧
    (socket.link.outcome? = none ∧ closing = [] ∨
      socket.link.outcome? = some .closed ∧ ∃ response now, response.stream? = routed.response.stream? ∧
        closing = [.close ⟨response, routed.watching⟩ now])
  reply : ∀ reply, routed.response = .reply reply →
    socket.written <+: reply.data ∧ (socket.link.outcome? ≠ none → socket.written = reply.data) ∧ socket.Returns

/-- What a connection came to, as the bytes decide that its peer sent before it hung up. All that
happened to the server is in the history, and what the connection did of it is told apart. -/
structure Handled (start : Socket) (steps : List SocketStep) : Prop where
  replayed : (start.run steps).registry = start.registry.serveAll ((start.history steps).map Deed.step)
  incomplete : (({} : HeadReader).feed (sentBy steps)).1 = .more →
    (start.history steps).filterMap Deed.own? = [] ∧ (start.run steps).written = [] ∧
      ((start.run steps).link.isReading = true ∨
        (start.run steps).link.outcome? = some .closed ∧ (start.run steps).hungUp = true)
  rejected : ∀ cause, (({} : HeadReader).feed (sentBy steps)).1 = .failed cause →
    (start.history steps).filterMap Deed.own? = [] ∧ (start.run steps).Returns ∧
      ((start.run steps).written = [] ∧ (start.run steps).link.isReading = true ∨
        (start.run steps).written = (Reply.badRequest none).data ∧
          (start.run steps).link.outcome? = some (.rejected cause))
  accepted : ∀ used reader, ({} : HeadReader).feed (sentBy steps) = (.finished used, reader) →
    (start.history steps).filterMap Deed.own? = [] ∧ (start.run steps).written = [] ∧
        (start.run steps).link.isReading = true ∧ (start.run steps).Comes (·.link.isReading = false) ∨
      ∃ earlier now draw later,
        start.history steps =
          earlier ++ .own (.route reader.target reader.keyHash start.link.remote now draw) :: later ∧
        earlier.filterMap Deed.own? = [] ∧
        (start.run steps).Answered ((start.registry.serveAll (earlier.map Deed.step)).route reader.target
          reader.keyHash start.link.remote now draw).1 (later.filterMap Deed.own?)
  -- The other connection is sent the head and nothing else, takes it in one piece, and goes through
  -- the same of all that the peer does not send.
  undisturbed : ∀ used, (({} : HeadReader).feed (sentBy steps)).1 = .finished used →
    ∃ others : List SocketStep, others.all (·.isWhole used) = true ∧
      others.filter (·.isOuter) = steps.filter (·.isOuter) ∧
      (start.run steps).Matches (start.run (.send ((sentBy steps).take used) :: others))
  returns : (start.run steps).hungUp = true → (start.run steps).Returns

end Socket

namespace Registry

variable {registry : Registry} {keyHash : Option Key.Hash} {reply : Reply}

theorem watch_reply {person : Person} {lastMessage : Nat}
    (replied : (registry.watch person lastMessage keyHash).1.response = .reply reply) : reply.pos = 0 := by
  unfold watch at replied
  split at replied
  next =>
    obtain rfl := Response.reply.inj replied
    rfl
  next => cases replied

theorem perform_reply {request : Request} {id : PersonId} {now : Nat}
    (replied : (registry.perform request id keyHash now).1.response = .reply reply) : reply.pos = 0 := by
  unfold perform at replied
  split at replied
  all_goals
    obtain rfl := Response.reply.inj replied
    rfl

theorem answer_reply {request : Request} {remote : Address} {now : Nat} {draw : Draw}
    (replied : (registry.answer request keyHash remote now draw).1.response = .reply reply) : reply.pos = 0 := by
  cases request with
  | newPerson =>
    simp only [answer] at replied
    split at replied
    next => exact watch_reply replied
    next =>
      obtain rfl := Response.reply.inj replied
      rfl
  | watchPerson =>
    simp only [answer] at replied
    split at replied
    next => exact watch_reply replied
    next =>
      obtain rfl := Response.reply.inj replied
      rfl
  | leave =>
    simp only [answer] at replied
    split at replied
    all_goals
      obtain rfl := Response.reply.inj replied
      rfl
  | sendMessage | startTyping | stopTyping | keepAlive | shout | turn | moveTile => exact perform_reply replied

theorem route_reply {target : String} {remote : Address} {now : Nat} {draw : Draw}
    (replied : (registry.route target keyHash remote now draw).1.response = .reply reply) : reply.pos = 0 := by
  unfold route at replied
  split at replied
  next => exact answer_reply replied
  all_goals
    obtain rfl := Response.reply.inj replied
    rfl

end Registry

namespace Socket

variable {socket : Socket} {routed : Routed} {done : List ServerStep}

theorem Answers.returns (answers : socket.Answers routed done)
    (leaves : socket.hungUp = true ∨ routed.response.stream? = none) : socket.Returns := by
  cases answers with
  | ended here => exact Socket.returns_of_ended here
  | going here waits left tended =>
    rename_i response
    rw [← left.stream?] at leaves
    rw [Link.routed?] at here
    rw [Link.listens] at waits
    cases phase : socket.link.phase with
    | head | ended =>
      rw [phase] at here
      cases here
    | writing other =>
      rw [phase] at here
      obtain rfl := Option.some.inj here
      exact returns_routed phase leaves
    | waiting other =>
      rw [phase] at here waits
      obtain rfl := Option.some.inj here
      rcases leaves with hungUp | reply
      · cases response with
        | reply reply => exact absurd rfl (waits rfl)
        | stream num watch => exact returns_stream hungUp (Or.inr phase)
      · exact absurd reply (waits rfl)

theorem Answers.outcome? (answers : socket.Answers routed done) :
    ∃ response, routed.response.Leaves socket.written response ∧
      (socket.link.outcome? = none ∧ routed.response.Tended done ∨
        socket.link.outcome? = some .closed ∧ (∀ reply, response = .reply reply → reply.data.length ≤ reply.pos) ∧
          ∃ tending now, done = tending ++ [.close ⟨response, routed.watching⟩ now] ∧
            routed.response.Tended tending) := by
  cases answers with
  | going here waits leaves tended =>
    refine ⟨_, leaves, Or.inl ⟨?_, tended⟩⟩
    rw [Link.routed?] at here
    rw [Link.outcome?]
    cases phase : socket.link.phase with
    | ended outcome =>
      rw [phase] at here
      cases here
    | head | writing | waiting => rfl
  | ended here leaves tended closing given =>
    refine ⟨_, leaves, Or.inr ⟨?_, given, _, _, closing, tended⟩⟩
    rw [Link.outcome?, here]

theorem Answers.answered (answers : socket.Answers routed done)
    (fresh : ∀ reply, routed.response = .reply reply → reply.pos = 0) : socket.Answered routed done := by
  obtain ⟨response, leaves, stage⟩ := answers.outcome?
  constructor
  case tends =>
    rcases stage with ⟨going, tended⟩ | ⟨closed, _, tending, now, closing, tended⟩
    · exact ⟨done, [], (List.append_nil done).symm, tended, Or.inl ⟨going, rfl⟩⟩
    · exact ⟨tending, _, closing, tended, Or.inr ⟨closed, response, now, leaves.stream?, rfl⟩⟩
  case reply =>
    intro reply replied
    have returns := answers.returns (Or.inr (by rw [replied]; rfl))
    have start := fresh reply replied
    rw [replied] at leaves
    cases leaves with
    | reply same given =>
      rename_i later
      rw [start, List.take_zero, List.nil_append] at given
      rw [given]
      refine ⟨List.take_prefix .., fun ended => ?_, returns⟩
      rcases stage with ⟨going, _⟩ | ⟨_, all, _⟩
      · exact absurd going ended
      · exact List.take_of_length_le (same ▸ all later rfl)

end Socket

/-- A connection routes at most one request, the one that the bytes of its peer spell up to the end
of the head, and does nothing else than to answer it. It returns when its peer hung up, and when
it has a reply to give. However the bytes come in pieces and whatever comes after the head, it
does what it does for a peer who sends the head alone. -/
theorem one_request_answered (before : List ServerStep) (remote : Address) (steps : List SocketStep) :
    (Socket.accept (Registry.serveAll {} before) remote).Handled steps := by
  have reading := Socket.reading_accept (Registry.serveAll {} before) remote
  have stage := reading.run steps (List.nil_append (Socket.sentBy steps))
  -- What the peer sent leaves one stage in each part.
  constructor
  case replayed => exact Socket.registry_run _ steps
  case incomplete =>
    intro more
    cases stage with
    | reading reading whole none => exact ⟨none, reading.written, Or.inl (by rw [Link.isReading, reading.head])⟩
    | left still hungUp here written none =>
      exact ⟨none, written, Or.inr ⟨by rw [Link.outcome?, here], hungUp⟩⟩
    | rejected failed => cases more.symm.trans failed
    | answering finished => cases more.symm.trans (congrArg Prod.fst finished)
  case rejected =>
    intro cause failed
    cases stage with
    | reading reading whole none =>
      refine ⟨none, reading.returns (Or.inr ⟨cause, whole ▸ failed⟩), Or.inl ⟨reading.written, ?_⟩⟩
      rw [Link.isReading, reading.head]
    | left more => cases more.symm.trans failed
    | rejected same here written none =>
      obtain rfl := HeadProgress.failed.inj (failed.symm.trans same)
      exact ⟨none, Socket.returns_of_ended here, Or.inr ⟨written, by rw [Link.outcome?, here]⟩⟩
    | answering finished => cases failed.symm.trans (congrArg Prod.fst finished)
  case accepted =>
    intro used reader finished
    cases stage with
    | reading reading whole none =>
      refine Or.inl ⟨none, reading.written, by rw [Link.isReading, reading.head], ?_⟩
      exact reading.comes_out (by simp [whole, finished])
    | left more => cases more.symm.trans (congrArg Prod.fst finished)
    | rejected failed => cases failed.symm.trans (congrArg Prod.fst finished)
    | answering same asked none answers =>
      rename_i used' now reader' draw earlier later
      obtain ⟨_, rfl⟩ := Prod.mk.inj (same.symm.trans finished)
      exact Or.inr ⟨earlier, now, draw, later, asked, none, answers.answered fun _ => Registry.route_reply⟩
  case undisturbed =>
    intro used finished
    have wired : (Registry.serveAll {} before).lobby.Wired :=
      Registry.wired_serveAll (fun _ _ found => by cases found) before
    have attends : ((Socket.accept (Registry.serveAll {} before) remote).step
        (.send ((Socket.sentBy steps).take used))).Attends ((Socket.sentBy steps).take used)
        (Socket.accept (Registry.serveAll {} before) remote) := ⟨rfl, rfl, rfl, rfl, rfl⟩
    exact reading.matches attends wired steps (List.nil_append _) finished rfl
  case returns =>
    intro hungUp
    cases stage with
    | reading reading => exact reading.returns (Or.inl hungUp)
    | left _ _ here | rejected _ here => exact Socket.returns_of_ended here
    | answering _ _ _ answers => exact answers.returns (Or.inl hungUp)

end TileRoom
