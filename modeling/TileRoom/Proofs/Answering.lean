import TileRoom.Proofs.HeadFeeding
import TileRoom.Proofs.Moving

/-! One connection of a server and its peer. The peer sends bytes and may hang up; the connection
takes what it was sent in pieces of any size when it looks for it; and in between the server does
whatever else it does. What the peer sent up to the end of the head decides the one request that
is routed, and all else that the connection does is to tend to the response. -/

namespace TileRoom

/-- What is done to a registry: by the connection itself, or elsewhere. -/
inductive Deed where
  | own (step : ServerStep)
  | other (step : ServerStep)

def Deed.step : Deed → ServerStep
  | .own step | .other step => step

def Deed.own? : Deed → Option ServerStep
  | .own step => some step
  | .other _ => none

namespace Link

def listens (link : Link) : Bool :=
  match link.phase with
  | .head _ | .waiting _ => true
  | .writing _ | .ended _ => false

def stream? (link : Link) : Option (RoomNum × WatchId) :=
  match link.phase with
  | .writing routed | .waiting routed => routed.response.stream?
  | .head _ | .ended _ => none

def receiving (link : Link) (bytes : Bytes) (now : Nat) (draw : Draw) : List ServerStep :=
  match link.phase with
  | .head reader =>
      match reader.feed bytes with
      | (.finished _, reader) => [.route reader.target reader.keyHash link.remote now draw]
      | (.more, _) | (.failed _, _) => []
  | .waiting _ | .writing _ | .ended _ => []

def leaving (link : Link) (now : Nat) : List ServerStep :=
  match link.phase with
  | .waiting routed => [.close routed now]
  | .head _ | .writing _ | .ended _ => []

def advancing (link : Link) (registry : Registry) (now : Nat) : List ServerStep :=
  match link.phase with
  | .head _ | .ended _ => []
  | .writing routed =>
      let (bytes, response, after) := registry.read routed.response writeSize
      .read routed.response writeSize ::
        if bytes ≠ [] then []
        else if after.isFinished response then [.close { routed with response } now]
        else
          match response with
          | .reply _ => [.close { routed with response } now]
          | .stream .. => []
  | .waiting routed =>
      if isNotified registry routed.response then [.takeNotice routed.response] else []

theorem receive_registry (link : Link) (registry : Registry) (bytes : Bytes) (now : Nat) (draw : Draw) :
    (link.receive registry bytes now draw).registry = registry.serveAll (link.receiving bytes now draw) := by
  obtain ⟨remote, phase⟩ := link
  cases phase with
  | head reader =>
    unfold receive receiving
    simp only
    cases reader.feed bytes with
    | mk progress later => cases progress <;> rfl
  | writing | waiting | ended => rfl

theorem receiveEnd_registry (link : Link) (registry : Registry) (now : Nat) :
    (link.receiveEnd registry now).registry = registry.serveAll (link.leaving now) := by
  obtain ⟨remote, phase⟩ := link
  cases phase <;> rfl

theorem advance_registry (link : Link) (registry : Registry) (now : Nat) :
    (link.advance registry now).registry = registry.serveAll (link.advancing registry now) := by
  obtain ⟨remote, phase⟩ := link
  cases phase with
  | head | ended => rfl
  | writing routed =>
    have served : registry.serve (.read routed.response writeSize) =
        (registry.read routed.response writeSize).2.2 := rfl
    unfold advance advancing
    simp only
    generalize registry.read routed.response writeSize = found at served ⊢
    obtain ⟨bytes, response, after⟩ := found
    simp only at served ⊢
    by_cases filled : bytes ≠ []
    · rw [if_pos filled, if_pos filled]
      exact served.symm
    · rw [if_neg filled, if_neg filled]
      have closed : registry.serveAll [.read routed.response writeSize, .close { routed with response } now] =
          after.close { routed with response } now := congrArg (·.close { routed with response } now) served
      split
      next => exact closed.symm
      next =>
        cases response with
        | reply => exact closed.symm
        | stream => exact served.symm
  | waiting routed =>
    unfold advance advancing
    simp only
    split
    next => rfl
    next => rfl

/-- What a connection that writes its response comes to: it wrote some bytes of it, or there were
none and it is over, or there is nothing to tell now and it waits. -/
inductive Writes (link : Link) (registry : Registry) (routed : Routed) (now : Nat) :
    LinkStep → List ServerStep → Prop where
  | more {bytes : Bytes} {response : Response} {after : Registry}
      (read : registry.read routed.response writeSize = (bytes, response, after)) (filled : bytes ≠ []) :
      Writes link registry routed now ⟨bytes, { link with phase := .writing { routed with response } }, after⟩
        [.read routed.response writeSize]
  | done {response : Response} {after : Registry}
      (read : registry.read routed.response writeSize = ([], response, after))
      (finished : after.isFinished response = true ∨ response.stream? = none) :
      Writes link registry routed now
        ⟨[], { link with phase := .ended .closed }, after.close { routed with response } now⟩
        [.read routed.response writeSize, .close { routed with response } now]
  | idle {response : Response} {after : Registry}
      (read : registry.read routed.response writeSize = ([], response, after))
      (going : after.isFinished response = false) (stream : response.stream? ≠ none) :
      Writes link registry routed now ⟨[], { link with phase := .waiting { routed with response } }, after⟩
        [.read routed.response writeSize]

theorem writes {link : Link} {routed : Routed} (writing : link.phase = .writing routed) (registry : Registry)
    (now : Nat) :
    link.Writes registry routed now (link.advance registry now) (link.advancing registry now) := by
  unfold advance advancing
  rw [writing]
  cases read : registry.read routed.response writeSize with
  | mk bytes found =>
    obtain ⟨response, after⟩ := found
    simp only [read]
    by_cases filled : bytes ≠ []
    · rw [if_pos filled, if_pos filled]
      exact .more read filled
    · rw [if_neg filled, if_neg filled]
      obtain rfl := Decidable.not_not.1 filled
      by_cases finished : after.isFinished response = true
      · rw [if_pos finished, if_pos finished]
        exact .done read (Or.inl finished)
      · rw [if_neg finished, if_neg finished]
        cases response with
        | reply => exact .done read (Or.inr rfl)
        | stream => exact .idle read (Bool.eq_false_iff.2 finished) (Option.some_ne_none _)

end Link

/-- A connection with what its peer sent and it did not take yet, and what it wrote to its
peer. -/
structure Socket where
  link : Link
  registry : Registry
  unread : Bytes := []
  hungUp : Bool := false
  written : Bytes := []

/-- What can happen to a connection: its peer sends something or hangs up, it looks for what its
peer sent, it goes on with its response, or something is done elsewhere. -/
inductive SocketStep where
  | send (bytes : Bytes)
  | hangUp
  | hear (spare now : Nat) (draw : Draw)
  | advance (now : Nat)
  | elsewhere (step : ServerStep)

def SocketStep.isOuter : SocketStep → Bool
  | .hangUp | .elsewhere _ => true
  | .send _ | .hear .. | .advance _ => false

namespace Socket

def accept (registry : Registry) (remote : Address) : Socket :=
  { link := { remote }, registry }

def owns (socket : Socket) (step : ServerStep) : Bool :=
  step.stream?.any fun stream => socket.link.stream? = some stream

def go (socket : Socket) (after : LinkStep) : Socket :=
  { socket with
    link := after.link, registry := after.registry, written := socket.written ++ after.written }

/-- A connection takes at least one byte and at most `spare` more, if there are any, and learns
that its peer hung up after all of them. -/
def step (socket : Socket) : SocketStep → Socket
  | .send bytes => if socket.hungUp then socket else { socket with unread := socket.unread ++ bytes }
  | .hangUp => { socket with hungUp := true }
  | .hear spare now draw =>
      if !socket.link.listens then socket
      else if socket.unread ≠ [] then
        { socket.go (socket.link.receive socket.registry (socket.unread.take (spare + 1)) now draw) with
          unread := socket.unread.drop (spare + 1) }
      else if socket.hungUp then socket.go (socket.link.receiveEnd socket.registry now)
      else socket
  | .advance now => socket.go (socket.link.advance socket.registry now)
  | .elsewhere step => if socket.owns step then socket else { socket with registry := socket.registry.serve step }

def run (socket : Socket) (steps : List SocketStep) : Socket :=
  steps.foldl step socket

def deeds (socket : Socket) : SocketStep → List Deed
  | .send _ | .hangUp => []
  | .hear spare now draw =>
      if !socket.link.listens then []
      else if socket.unread ≠ [] then
        (socket.link.receiving (socket.unread.take (spare + 1)) now draw).map .own
      else if socket.hungUp then (socket.link.leaving now).map .own
      else []
  | .advance now => (socket.link.advancing socket.registry now).map .own
  | .elsewhere step => if socket.owns step then [] else [.other step]

def history (socket : Socket) : List SocketStep → List Deed
  | [] => []
  | step :: rest => socket.deeds step ++ (socket.step step).history rest

def sentBy : List SocketStep → Bytes
  | [] | .hangUp :: _ => []
  | .send bytes :: rest => bytes ++ sentBy rest
  | .hear .. :: rest | .advance _ :: rest | .elsewhere _ :: rest => sentBy rest

def coming (socket : Socket) (steps : List SocketStep) : Bytes :=
  socket.unread ++ if socket.hungUp then [] else sentBy steps

variable {socket : Socket}

theorem own_own (steps : List ServerStep) : (steps.map Deed.own).filterMap Deed.own? = steps := by
  rw [List.filterMap_map]
  exact List.filterMap_some

theorem run_append (socket : Socket) (first later : List SocketStep) :
    socket.run (first ++ later) = (socket.run first).run later :=
  List.foldl_append

theorem registry_step (socket : Socket) (step : SocketStep) :
    (socket.step step).registry = socket.registry.serveAll ((socket.deeds step).map Deed.step) := by
  have own (steps : List ServerStep) : (steps.map Deed.own).map Deed.step = steps := by
    rw [List.map_map]
    exact List.map_id steps
  cases step with
  | send bytes =>
    rw [Socket.step]
    split <;> rfl
  | hangUp => rfl
  | hear spare now draw =>
    rw [Socket.step, deeds]
    split
    next => rfl
    next =>
      split
      next =>
        rw [own]
        exact Link.receive_registry ..
      next =>
        split
        next =>
          rw [own]
          exact Link.receiveEnd_registry ..
        next => rfl
  | advance now =>
    rw [deeds, own]
    exact Link.advance_registry ..
  | elsewhere step =>
    rw [Socket.step, deeds]
    split <;> rfl

theorem registry_run (socket : Socket) (steps : List SocketStep) :
    (socket.run steps).registry = socket.registry.serveAll ((socket.history steps).map Deed.step) := by
  induction steps generalizing socket with
  | nil => rfl
  | cons step rest ih =>
    rw [history, List.map_append, Registry.serveAll_append, ← registry_step]
    exact ih (socket.step step)

end Socket

def ServerStep.isTending : ServerStep → Bool
  | .read .. | .takeNotice _ => true
  | .route .. | .close .. | .check .. => false

def Response.Tended (response : Response) (steps : List ServerStep) : Prop :=
  ∀ step ∈ steps, step.isTending = true ∧ step.stream? = response.stream?

inductive Response.Leaves : Response → Bytes → Response → Prop where
  | reply {first later : Reply} {written : Bytes} (same : later.data = first.data)
      (given : first.data.take first.pos ++ written = first.data.take later.pos) :
      Leaves (.reply first) written (.reply later)
  | stream (num : RoomNum) (watch : WatchId) (written : Bytes) :
      Leaves (.stream num watch) written (.stream num watch)

theorem Registry.read_reply_nil {registry after : Registry} {response : Response} {reply : Reply} {size : Nat}
    (read : registry.read response size = ([], .reply reply, after)) (space : 0 < size) :
    reply.data.length ≤ reply.pos := by
  cases response with
  | stream =>
    have same := congrArg (·.2.1) read
    simp only [stream_read] at same
    cases same
  | reply before =>
    have empty : (before.read size).1 = [] := congrArg (·.1) read
    have later : (before.read size).2 = reply := Response.reply.inj (congrArg (·.2.1) read)
    have given := Reply.read_nil space empty
    obtain ⟨data, next⟩ := before.read_spec size
    rw [empty, List.append_nil, List.take_of_length_le given, later] at next
    rw [later] at data
    have all := congrArg List.length next
    rw [List.length_take] at all
    rw [data]
    omega

namespace Response

variable {first response : Response} {written : Bytes}

theorem Leaves.refl (response : Response) : response.Leaves [] response := by
  cases response with
  | reply reply => exact .reply rfl (List.append_nil _)
  | stream num watch => exact .stream num watch []

theorem Leaves.stream? (leaves : first.Leaves written response) : response.stream? = first.stream? := by
  cases leaves <;> rfl

theorem Leaves.read (leaves : first.Leaves written response) (registry : Registry) (size : Nat) :
    first.Leaves (written ++ (registry.read response size).1) (registry.read response size).2.1 := by
  cases leaves with
  | reply same given =>
    rename_i reply later
    obtain ⟨data, next⟩ := later.read_spec size
    refine .reply (data.trans same) ?_
    rw [same] at next
    rw [← List.append_assoc, given]
    exact next
  | stream num watch =>
    rw [Registry.stream_read]
    exact .stream num watch _

theorem Tended.nil (response : Response) : response.Tended [] :=
  fun _ member => absurd member List.not_mem_nil

theorem Tended.append {steps later : List ServerStep} (tended : response.Tended steps)
    (more : response.Tended later) : response.Tended (steps ++ later) := by
  intro step member
  rcases List.mem_append.1 member with before | after
  · exact tended step before
  · exact more step after

theorem tended_read (same : response.stream? = first.stream?) (size : Nat) :
    first.Tended [.read response size] := by
  intro step member
  obtain rfl := List.mem_singleton.1 member
  exact ⟨rfl, same⟩

theorem tended_takeNotice (same : response.stream? = first.stream?) : first.Tended [.takeNotice response] := by
  intro step member
  obtain rfl := List.mem_singleton.1 member
  exact ⟨rfl, same⟩

end Response

def Link.routed? (link : Link) : Option Routed :=
  match link.phase with
  | .writing routed | .waiting routed => some routed
  | .head _ | .ended _ => none

namespace Socket

variable {socket : Socket} {routed : Routed} {done : List ServerStep}

/-- A connection gives its response, and all it does for that is to tend to it; when the
response is over it closes it. -/
inductive Answers (routed : Routed) (socket : Socket) (done : List ServerStep) : Prop where
  | going {response : Response} (here : socket.link.routed? = some ⟨response, routed.watching⟩)
      (waits : socket.link.listens = true → response.stream? ≠ none)
      (leaves : routed.response.Leaves socket.written response) (tended : routed.response.Tended done)
  | ended {response : Response} {now : Nat} {before : List ServerStep}
      (here : socket.link.phase = .ended .closed)
      (leaves : routed.response.Leaves socket.written response) (tended : routed.response.Tended before)
      (closing : done = before ++ [.close ⟨response, routed.watching⟩ now])
      (given : ∀ reply, response = .reply reply → reply.data.length ≤ reply.pos)

theorem go_idle (socket : Socket) : socket.go (socket.link.idle socket.registry) = socket := by
  simp only [go, Link.idle, List.append_nil]

theorem advance_writing {routed : Routed} (writing : socket.link.phase = .writing routed) (now : Nat) :
    ∃ after steps, socket.step (.advance now) = socket.go after ∧
      socket.deeds (.advance now) = steps.map .own ∧
      socket.link.Writes socket.registry routed now after steps :=
  ⟨_, _, rfl, rfl, Link.writes writing socket.registry now⟩

theorem step_ended {outcome : LinkEnd} (ended : socket.link.phase = .ended outcome) (step : SocketStep) :
    (socket.step step).link = socket.link ∧ (socket.step step).written = socket.written ∧
      (socket.deeds step).filterMap Deed.own? = [] := by
  have deaf : socket.link.listens = false := by rw [Link.listens, ended]
  cases step with
  | send bytes =>
    rw [Socket.step]
    split <;> exact ⟨rfl, rfl, rfl⟩
  | hangUp => exact ⟨rfl, rfl, rfl⟩
  | hear spare now draw =>
    simp only [Socket.step, deeds, deaf]
    exact ⟨rfl, rfl, rfl⟩
  | advance now =>
    have still : socket.link.advance socket.registry now = socket.link.idle socket.registry := by
      rw [Link.advance, ended]
    have nothing : socket.link.advancing socket.registry now = [] := by rw [Link.advancing, ended]
    rw [Socket.step, deeds, still, go_idle, nothing]
    exact ⟨rfl, rfl, rfl⟩
  | elsewhere step =>
    rw [Socket.step, deeds]
    split <;> exact ⟨rfl, rfl, rfl⟩

theorem Answers.advance {response : Response} (here : socket.link.routed? = some ⟨response, routed.watching⟩)
    (waits : socket.link.listens = true → response.stream? ≠ none)
    (leaves : routed.response.Leaves socket.written response) (tended : routed.response.Tended done) (now : Nat) :
    (socket.step (.advance now)).Answers routed
      (done ++ (socket.deeds (.advance now)).filterMap Deed.own?) := by
  have same := leaves.stream?
  cases phase : socket.link.phase with
  | head | ended =>
    rw [Link.routed?, phase] at here
    cases here
  | waiting other =>
    rw [Link.routed?, phase] at here
    obtain rfl := Option.some.inj here
    rw [deeds, own_own, Socket.step, Link.advance, Link.advancing, phase]
    simp only
    split
    next =>
      refine .going rfl (absurd · Bool.false_ne_true) ?_ (tended.append (Response.tended_takeNotice same))
      change routed.response.Leaves (socket.written ++ []) response
      rwa [List.append_nil]
    next =>
      rw [go_idle, List.append_nil]
      exact .going (by rw [Link.routed?, phase]) waits leaves tended
  | writing other =>
    rw [Link.routed?, phase] at here
    obtain rfl := Option.some.inj here
    have later := leaves.read socket.registry Link.writeSize
    have reading := tended.append (Response.tended_read same Link.writeSize)
    obtain ⟨after, steps, stepped, deeds, writes⟩ := advance_writing phase now
    rw [stepped, deeds, own_own]
    cases writes with
    | more read filled =>
      rw [read] at later
      exact .going rfl (absurd · Bool.false_ne_true) later reading
    | idle read going stream =>
      rw [read] at later
      exact .going rfl (fun _ => stream) later reading
    | done read finished =>
      rw [read] at later
      refine .ended rfl later reading (List.append_assoc done [_] [_]).symm ?_
      rintro reply rfl
      exact Registry.read_reply_nil read (by decide)

theorem Answers.hear {response : Response} (here : socket.link.routed? = some ⟨response, routed.watching⟩)
    (waits : socket.link.listens = true → response.stream? ≠ none)
    (leaves : routed.response.Leaves socket.written response) (tended : routed.response.Tended done)
    (spare now : Nat) (draw : Draw) :
    (socket.step (.hear spare now draw)).Answers routed
      (done ++ (socket.deeds (.hear spare now draw)).filterMap Deed.own?) := by
  have still : routed.response.Leaves (socket.written ++ []) response := by rwa [List.append_nil]
  rw [Socket.step, deeds]
  cases phase : socket.link.phase with
  | head | ended =>
    rw [Link.routed?, phase] at here
    cases here
  | writing other =>
    have deaf : socket.link.listens = false := by rw [Link.listens, phase]
    rw [deaf]
    simp only [Bool.not_false, if_true, List.filterMap_nil, List.append_nil]
    exact .going here waits leaves tended
  | waiting other =>
    have listens : socket.link.listens = true := by rw [Link.listens, phase]
    have found := here
    rw [Link.routed?, phase] at found
    obtain rfl := Option.some.inj found
    rw [listens]
    simp only [Bool.not_true, Bool.false_eq_true, if_false]
    by_cases empty : socket.unread = []
    · rw [if_neg (not_not.2 empty), if_neg (not_not.2 empty)]
      by_cases hungUp : socket.hungUp = true
      · rw [if_pos hungUp, if_pos hungUp, own_own, Link.receiveEnd, Link.leaving, phase]
        refine .ended rfl still tended rfl ?_
        rintro reply rfl
        exact absurd rfl (waits listens)
      · rw [if_neg hungUp, if_neg hungUp, List.filterMap_nil, List.append_nil]
        exact .going here waits leaves tended
    · rw [if_pos empty, if_pos empty, own_own, Link.receive, Link.receiving, phase, List.append_nil]
      exact .going rfl (absurd · Bool.false_ne_true) still tended

theorem Answers.step (answers : socket.Answers routed done) (step : SocketStep) :
    (socket.step step).Answers routed (done ++ (socket.deeds step).filterMap Deed.own?) := by
  have kept {later : Socket} (link : later.link = socket.link) (written : later.written = socket.written)
      (nothing : (socket.deeds step).filterMap Deed.own? = []) :
      later.Answers routed (done ++ (socket.deeds step).filterMap Deed.own?) := by
    rw [nothing, List.append_nil]
    cases answers with
    | going here waits leaves tended => exact .going (link ▸ here) (link ▸ waits) (written ▸ leaves) tended
    | ended here leaves tended closing given => exact .ended (link ▸ here) (written ▸ leaves) tended closing given
  cases answers with
  | ended here leaves tended closing given =>
    obtain ⟨link, written, nothing⟩ := step_ended here step
    exact kept link written nothing
  | going here waits leaves tended =>
    cases step with
    | send bytes =>
      refine kept ?_ ?_ rfl <;>
        · rw [Socket.step]
          split <;> rfl
    | hangUp => exact kept rfl rfl rfl
    | hear spare now draw => exact Answers.hear here waits leaves tended spare now draw
    | advance now => exact Answers.advance here waits leaves tended now
    | elsewhere step =>
      refine kept ?_ ?_ ?_
      · rw [Socket.step]
        split <;> rfl
      · rw [Socket.step]
        split <;> rfl
      · rw [deeds]
        split <;> rfl

theorem Answers.run (answers : socket.Answers routed done) (steps : List SocketStep) :
    (socket.run steps).Answers routed (done ++ (socket.history steps).filterMap Deed.own?) := by
  induction steps generalizing socket done with
  | nil => rwa [history, List.filterMap_nil, List.append_nil]
  | cons step rest ih =>
    rw [history, List.filterMap_append, ← List.append_assoc]
    exact ih (answers.step step)

theorem run_ended (socket : Socket) {outcome : LinkEnd} (ended : socket.link.phase = .ended outcome)
    (steps : List SocketStep) :
    (socket.run steps).link.phase = .ended outcome ∧ (socket.run steps).written = socket.written ∧
      (socket.history steps).filterMap Deed.own? = [] := by
  induction steps generalizing socket with
  | nil => exact ⟨ended, rfl, rfl⟩
  | cons step rest ih =>
    obtain ⟨link, written, nothing⟩ := step_ended ended step
    obtain ⟨later, same, none⟩ := ih (socket.step step) (link ▸ ended)
    refine ⟨later, same.trans written, ?_⟩
    rw [history, List.filterMap_append, nothing, none, List.append_nil]

theorem hungUp_run (socket : Socket) (hungUp : socket.hungUp = true) (steps : List SocketStep) :
    (socket.run steps).hungUp = true := by
  induction steps generalizing socket with
  | nil => exact hungUp
  | cons step rest ih =>
    refine ih _ ?_
    cases step with
    | send | elsewhere =>
      rw [Socket.step]
      split <;> exact hungUp
    | hangUp => rfl
    | advance => exact hungUp
    | hear =>
      rw [Socket.step]
      split
      next => exact hungUp
      next =>
        split <;> exact hungUp

/-- A connection that took the bytes `heard` and is still at the head of the request. -/
structure Reading (socket : Socket) (heard : Bytes) : Prop where
  head : socket.link.phase = .head (({} : HeadReader).feed heard).2
  more : (({} : HeadReader).feed heard).1 = .more
  written : socket.written = []

variable {heard all : Bytes}

theorem reading_accept (registry : Registry) (remote : Address) : (accept registry remote).Reading [] := by
  have nothing : ({} : HeadReader).feed [] = (.more, {}) := HeadReader.feedFrom_nil rfl
  exact ⟨by rw [nothing]; rfl, by rw [nothing], rfl⟩

/-- How far a connection got with what its peer sent before it hung up, and what it did. -/
inductive Stage (all : Bytes) (start socket : Socket) (history : List Deed) : Prop where
  | reading {heard : Bytes} (reading : socket.Reading heard) (whole : heard ++ socket.unread = all)
      (none : history.filterMap Deed.own? = [])
  | left (more : (({} : HeadReader).feed all).1 = .more) (hungUp : socket.hungUp = true)
      (here : socket.link.phase = .ended .closed) (written : socket.written = [])
      (none : history.filterMap Deed.own? = [])
  | rejected {cause : HandshakeError} (failed : (({} : HeadReader).feed all).1 = .failed cause)
      (here : socket.link.phase = .ended (.rejected cause))
      (written : socket.written = (Reply.badRequest none).data) (none : history.filterMap Deed.own? = [])
  | answering {used now : Nat} {reader : HeadReader} {draw : Draw} {earlier later : List Deed}
      (finished : ({} : HeadReader).feed all = (.finished used, reader))
      (asked : history =
        earlier ++ .own (.route reader.target reader.keyHash start.link.remote now draw) :: later)
      (none : earlier.filterMap Deed.own? = [])
      (answers : socket.Answers ((start.registry.serveAll (earlier.map Deed.step)).route reader.target
        reader.keyHash start.link.remote now draw).1 (later.filterMap Deed.own?))

theorem Stage.before {middle later : Socket} {deeds history : List Deed} (stage : Stage all middle later history)
    (registry : middle.registry = socket.registry.serveAll (deeds.map Deed.step))
    (remote : middle.link.remote = socket.link.remote) (nothing : deeds.filterMap Deed.own? = []) :
    Stage all socket later (deeds ++ history) := by
  have none {others : List Deed} (none : others.filterMap Deed.own? = []) :
      (deeds ++ others).filterMap Deed.own? = [] := by
    rw [List.filterMap_append, nothing, none, List.append_nil]
  cases stage with
  | reading reading whole quiet => exact .reading reading whole (none quiet)
  | left more hungUp here written quiet => exact .left more hungUp here written (none quiet)
  | rejected failed here written quiet => exact .rejected failed here written (none quiet)
  | answering finished asked quiet answers =>
    rw [remote] at asked answers
    refine .answering finished (by rw [asked, List.append_assoc]) (none quiet) ?_
    rwa [List.map_append, Registry.serveAll_append, ← registry]

/-- What a connection at the head of a request comes to when it looks for what its peer sent. -/
inductive Hears (socket : Socket) (heard : Bytes) (now : Nat) (draw : Draw) : Socket → List Deed → Prop where
  | nothing (empty : socket.unread = []) (there : socket.hungUp = false) : Hears socket heard now draw socket []
  | left (empty : socket.unread = []) (hungUp : socket.hungUp = true) :
      Hears socket heard now draw (socket.go (socket.link.enter socket.registry (.ended .closed))) []
  | more {piece rest : Bytes} (some : piece ≠ []) (cut : piece ++ rest = socket.unread)
      (more : (({} : HeadReader).feed (heard ++ piece)).1 = .more) :
      Hears socket heard now draw { socket.go (socket.link.enter socket.registry
        (.head (({} : HeadReader).feed (heard ++ piece)).2)) with unread := rest } []
  | failed {piece rest : Bytes} {cause : HandshakeError} (cut : piece ++ rest = socket.unread)
      (failed : (({} : HeadReader).feed (heard ++ piece)).1 = .failed cause) :
      Hears socket heard now draw { socket.go ⟨(Reply.badRequest none).data,
        { socket.link with phase := .ended (.rejected cause) }, socket.registry⟩ with unread := rest } []
  | finished {piece rest : Bytes} {used : Nat} {reader : HeadReader} (cut : piece ++ rest = socket.unread)
      (finished : ({} : HeadReader).feed (heard ++ piece) = (.finished used, reader)) :
      Hears socket heard now draw { socket.go (socket.link.enter
          (socket.registry.serve (.route reader.target reader.keyHash socket.link.remote now draw))
          (.writing (socket.registry.route reader.target reader.keyHash socket.link.remote now draw).1)) with
        unread := rest } [.own (.route reader.target reader.keyHash socket.link.remote now draw)]

theorem Reading.hears (reading : socket.Reading heard) (spare now : Nat) (draw : Draw) :
    Hears socket heard now draw (socket.step (.hear spare now draw)) (socket.deeds (.hear spare now draw)) := by
  have listens : socket.link.listens = true := by rw [Link.listens, reading.head]
  rw [Socket.step, deeds, listens]
  simp only [Bool.not_true, Bool.false_eq_true, if_false]
  by_cases empty : socket.unread = []
  · rw [if_neg (not_not.2 empty), if_neg (not_not.2 empty), Link.receiveEnd, Link.leaving, reading.head, List.map_nil,
      ite_self]
    by_cases hungUp : socket.hungUp = true
    · rw [if_pos hungUp]
      exact .left empty hungUp
    · rw [if_neg hungUp]
      exact .nothing empty (Bool.eq_false_iff.2 hungUp)
  · rw [if_pos empty, if_pos empty]
    have some : socket.unread.take (spare + 1) ≠ [] := by
      rw [Ne, List.take_eq_nil_iff, not_or]
      exact ⟨Nat.succ_ne_zero spare, empty⟩
    have cut := List.take_append_drop (spare + 1) socket.unread
    generalize socket.unread.take (spare + 1) = piece at some cut ⊢
    generalize socket.unread.drop (spare + 1) = rest at cut ⊢
    have whole := HeadReader.feed_append_going reading.more piece
    rw [Link.receive, Link.receiving, reading.head]
    simp only
    generalize (({} : HeadReader).feed heard).2.feed piece = found at whole ⊢
    obtain ⟨progress, reader⟩ := found
    have state : (({} : HeadReader).feed (heard ++ piece)).2 = reader := congrArg Prod.snd whole
    cases progress with
    | more =>
      rw [← state]
      exact .more some cut (congrArg Prod.fst whole)
    | failed cause => exact .failed cut (congrArg Prod.fst whole)
    | finished count => exact .finished cut whole

theorem feed_over {steps : List SocketStep} (whole : heard ++ socket.coming steps = all) {piece rest : Bytes}
    (cut : piece ++ rest = socket.unread) (stopped : (({} : HeadReader).feed (heard ++ piece)).1 ≠ .more) :
    ({} : HeadReader).feed all = ({} : HeadReader).feed (heard ++ piece) := by
  rw [← whole, coming, ← cut, List.append_assoc piece, ← List.append_assoc heard]
  exact HeadReader.feed_append_over stopped _

theorem Reading.further (reading : socket.Reading heard) {steps : List SocketStep}
    (whole : heard ++ socket.coming steps = all) {piece rest : Bytes} (cut : piece ++ rest = socket.unread)
    (more : (({} : HeadReader).feed (heard ++ piece)).1 = .more) {later : Socket}
    (same : later = { socket.go (socket.link.enter socket.registry
      (.head (({} : HeadReader).feed (heard ++ piece)).2)) with unread := rest }) :
    later.Reading (heard ++ piece) ∧ heard ++ piece ++ later.coming steps = all := by
  rw [same]
  refine ⟨⟨rfl, more, (List.append_nil socket.written).trans reading.written⟩, ?_⟩
  rw [← whole, coming, coming, ← cut, List.append_assoc piece, ← List.append_assoc heard]
  rfl

theorem Reading.advance (reading : socket.Reading heard) (now : Nat) :
    socket.step (.advance now) = socket ∧ socket.deeds (.advance now) = [] := by
  rw [Socket.step, deeds, Link.advance, Link.advancing, reading.head]
  exact ⟨go_idle socket, rfl⟩

theorem Reading.kept (reading : socket.Reading heard) {step : SocketStep}
    (other : ∀ spare now draw, step ≠ .hear spare now draw) :
    (socket.step step).link = socket.link ∧ (socket.step step).written = socket.written ∧
      (socket.deeds step).filterMap Deed.own? = [] ∧
      ∀ rest, (socket.step step).coming rest = socket.coming (step :: rest) := by
  cases step with
  | hear spare now draw => exact absurd rfl (other spare now draw)
  | send bytes =>
    refine ⟨?_, ?_, rfl, fun rest => ?_⟩
    · rw [Socket.step]
      split <;> rfl
    · rw [Socket.step]
      split <;> rfl
    · rw [Socket.step, coming, coming, sentBy]
      cases away : socket.hungUp with
      | true =>
        rw [if_pos rfl, away]
        rfl
      | false => exact List.append_assoc socket.unread bytes (sentBy rest)
  | hangUp =>
    refine ⟨rfl, rfl, rfl, fun rest => ?_⟩
    change socket.unread ++ (if true = true then [] else _) = socket.unread ++ if _ then [] else []
    rw [ite_self, if_pos rfl]
  | advance now =>
    obtain ⟨same, nothing⟩ := reading.advance now
    rw [same, nothing]
    exact ⟨rfl, rfl, rfl, fun _ => rfl⟩
  | elsewhere step =>
    rw [deeds, Socket.step]
    split <;> exact ⟨rfl, rfl, rfl, fun _ => rfl⟩

/-- What the peer sends before it hangs up decides what becomes of a connection. -/
theorem Reading.run (reading : socket.Reading heard) (steps : List SocketStep)
    (whole : heard ++ socket.coming steps = all) : Stage all socket (socket.run steps) (socket.history steps) := by
  induction steps generalizing socket heard with
  | nil =>
    refine .reading reading ?_ rfl
    rw [coming, sentBy, ite_self, List.append_nil] at whole
    exact whole
  | cons step rest ih =>
    -- Any step but a look for bytes leaves the connection at the head of its request.
    by_cases hears : ∃ spare now draw, step = .hear spare now draw
    · obtain ⟨spare, now, draw, rfl⟩ := hears
      have hears := reading.hears spare now draw
      rw [history]
      change Stage all socket ((socket.step (.hear spare now draw)).run rest) _
      generalize socket.step (.hear spare now draw) = later at hears ⊢
      generalize socket.deeds (.hear spare now draw) = deeds at hears ⊢
      have silent : socket.written ++ [] = [] := (List.append_nil socket.written).trans reading.written
      cases hears with
      | nothing empty there => exact ih reading whole
      | left empty hungUp =>
        obtain ⟨here, written, none⟩ :=
          run_ended (socket.go (socket.link.enter socket.registry (.ended .closed))) rfl rest
        refine .left ?_ (hungUp_run (socket.go _) hungUp rest) here (written.trans silent) none
        rw [coming, empty, if_pos hungUp, List.append_nil, List.append_nil] at whole
        exact whole ▸ reading.more
      | more some cut more =>
        obtain ⟨further, still⟩ := reading.further whole cut more rfl
        exact (ih further still).before rfl rfl rfl
      | failed cut failed =>
        rename_i piece left cause
        obtain ⟨here, written, none⟩ := run_ended { socket.go ⟨(Reply.badRequest none).data,
          { socket.link with phase := .ended (.rejected cause) }, socket.registry⟩ with unread := left } rfl rest
        refine .rejected ?_ here (written.trans ?_) none
        · rw [feed_over whole cut (by simp [failed])]
          exact failed
        · exact congrArg (· ++ (Reply.badRequest Option.none).data) reading.written
      | finished cut finished =>
        rename_i piece left used reader
        have decided := (feed_over whole cut (by simp [finished])).trans finished
        refine .answering decided (List.nil_append _).symm rfl ?_
        refine @Answers.run _ _ [] ?_ rest
        refine .going rfl (absurd · Bool.false_ne_true) ?_ (Response.Tended.nil _)
        change Response.Leaves _ (socket.written ++ []) _
        rw [silent]
        exact .refl _
    · have other : ∀ spare now draw, step ≠ .hear spare now draw :=
        fun spare now draw same => hears ⟨spare, now, draw, same⟩
      obtain ⟨link, written, nothing, same⟩ := reading.kept other
      have later : (socket.step step).Reading heard :=
        ⟨link ▸ reading.head, reading.more, written ▸ reading.written⟩
      exact (ih later (same rest ▸ whole)).before (registry_step socket step) (congrArg Link.remote link) nothing

end Socket

end TileRoom
