import Mathlib.Data.List.Perm.Basic
import TileRoom.Proofs.Seating

/-! Persons and the streams that watch them. A person counts the streams that were opened
in their name and have not ended, and is removed for silence only when there is none. -/

namespace TileRoom

namespace Registry

variable {before after registry : Registry} {id : PersonId}

theorem mem_timedOut (named : registry.Named) (timeout now : Nat) (id : PersonId) :
    id ∈ registry.timedOut timeout now ↔
      ∃ person, registry.person? id = some person ∧ person.isTimedOut timeout now = true := by
  simp only [timedOut, Table.values, List.mem_map, List.mem_filter]
  constructor
  · intro member
    obtain ⟨person, ⟨⟨entry, there, rfl⟩, silent⟩, rfl⟩ := member
    have known : registry.person? entry.1 = some entry.2 :=
      (Table.find?_eq_some_iff registry.persons entry.1 entry.2).2 there
    rw [named entry.1 entry.2 known]
    exact ⟨entry.2, known, silent⟩
  · intro found
    obtain ⟨person, known, silent⟩ := found
    have there := (Table.find?_eq_some_iff registry.persons id person).1 known
    exact ⟨person, ⟨⟨(id, person), there, rfl⟩, silent⟩, named id person known⟩

theorem person?_act_all (rooms : List RoomNum) (action : Action) (registry : Registry) (id : PersonId) :
    (rooms.foldl (fun registry room => registry.act room action) registry).person? id =
      registry.person? id := by
  induction rooms generalizing registry with
  | nil => rfl
  | cons room rest ih => exact ih (registry.act room action)

theorem person?_checkTimeouts (named : registry.Named) (timeout duration now : Nat) (id : PersonId) :
    (registry.checkTimeouts timeout duration now).person? id =
      (registry.person? id).filter fun person => !person.isTimedOut timeout now := by
  rw [checkTimeouts, person?_act_all]
  change (registry.removeAll (registry.timedOut timeout now)).person? id = _
  rw [person?_removeAll]
  have silent := mem_timedOut named timeout now id
  cases known : registry.person? id with
  | none => exact ite_self none
  | some person =>
    rw [known] at silent
    simp only [Option.some.injEq, exists_eq_left'] at silent
    by_cases gone : id ∈ registry.timedOut timeout now
    · rw [if_pos gone, Option.filter, silent.1 gone]
      rfl
    · rw [if_neg gone, Option.filter, Bool.eq_false_iff.2 fun late => gone (silent.2 late)]
      rfl

theorem Seated.checkTimeouts (seated : registry.Seated) (timeout duration now : Nat) :
    (registry.checkTimeouts timeout duration now).Seated := by
  have acts (rooms : List RoomNum) (registry : Registry) (fine : registry.Seated) :
      (rooms.foldl (fun registry room => registry.act room (.expire now duration)) registry).Seated := by
    induction rooms generalizing registry with
    | nil => exact fine
    | cons room rest ih => exact ih _ (fine.same (same_act registry room rfl))
  exact acts _ _ (seated.removeAll (registry.timedOut timeout now)).1

theorem Seated.home (seated : registry.Seated) {person : Person}
    (known : registry.person? id = some person) :
    ∃ room, registry.lobby.room? person.room = some room := by
  have connected : registry.isConnected person.seat = true :=
    (seated.filled person.seat).2 ⟨id, by rw [seat?, known]; rfl⟩
  cases there : registry.lobby.room? person.room with
  | some room => exact ⟨room, rfl⟩
  | none =>
    rw [isConnected, conversation?, Person.seat, there] at connected
    cases connected

theorem Seated.watch (seated : registry.Seated) (person : Person) {found : Person}
    (known : registry.person? person.id = some found) (home : found.room = person.room)
    (lastMessage : Nat) (keyHash : Option Key.Hash) :
    (registry.watch person lastMessage keyHash).1.watching = some person.id ∧
      (registry.watch person lastMessage keyHash).2.Seated ∧
      (registry.watch person lastMessage keyHash).2.persons = registry.persons := by
  obtain ⟨room, there⟩ := seated.home known
  rw [home] at there
  unfold Registry.watch
  rw [there]
  exact ⟨rfl, seated.same (same_setRoom there rfl), rfl⟩

/-- What an answer does to the persons: it may make a newcomer, its sender was active, and
counts one more stream if the answer is one. -/
structure Serves (before after : Registry) (routed : Routed) (newcomer sender : Option PersonId)
    (now : Nat) : Prop where
  seated : after.Seated
  known : ∀ id person, after.person? id = some person →
    newcomer = some id ∨ ∃ old, before.person? id = some old
  watched : ∀ id, routed.watching = some id →
    sender = some id ∧ ∃ person, after.person? id = some person
  active : ∀ id person, sender = some id → after.person? id = some person →
    person.lastSeen = now ∧ person.watchers = (before.person? id).elim 0 (·.watchers) +
      if routed.watching = some id then 1 else 0
  others : ∀ id, sender ≠ some id → after.person? id = before.person? id

theorem serves_reply {routed : Routed} {sender : Option PersonId} {now : Nat} (fine : after.Seated)
    (reply : routed.watching = none)
    (active : ∀ id person, sender = some id → after.person? id = some person →
      ∃ old, before.person? id = some old ∧ person.lastSeen = now ∧ person.watchers = old.watchers)
    (others : ∀ id, sender ≠ some id → after.person? id = before.person? id) :
    Serves before after routed none sender now := by
  refine ⟨fine, ?_, ?_, ?_, others⟩
  · intro id person known
    by_cases sent : sender = some id
    · obtain ⟨old, was, _⟩ := active id person sent known
      exact Or.inr ⟨old, was⟩
    · exact Or.inr ⟨person, (others id sent).symm.trans known⟩
  · intro id watching
    rw [reply] at watching
    cases watching
  · intro id person sent known
    obtain ⟨old, was, seen, same⟩ := active id person sent known
    rw [reply, if_neg (Option.some_ne_none id).symm, was]
    exact ⟨seen, same⟩

theorem serves_stream {routed : Routed} {newcomer : Option PersonId} {now : Nat} (person : Person)
    (fine : after.Seated) (stream : routed.watching = some id) (seen : person.lastSeen = now)
    (counted : person.watchers = (before.person? id).elim 0 (·.watchers) + 1)
    (known : newcomer = some id ∨ ∃ old, before.person? id = some old)
    (persons : ∀ other, after.person? other = if id = other then some person else before.person? other) :
    Serves before after routed newcomer (some id) now := by
  refine ⟨fine, ?_, ?_, ?_, ?_⟩
  · intro other found there
    rw [persons] at there
    split at there
    next here => exact here ▸ known
    next => exact Or.inr ⟨found, there⟩
  · intro other watching
    rw [stream] at watching
    refine ⟨watching, person, ?_⟩
    rw [persons, if_pos (Option.some.inj watching)]
  · intro other found sent there
    obtain rfl := Option.some.inj sent
    rw [persons, if_pos rfl] at there
    obtain rfl := Option.some.inj there
    rw [stream, if_pos rfl]
    exact ⟨seen, counted⟩
  · intro other different
    rw [persons, if_neg fun here => different (congrArg some here)]

end Registry

def Routed.newcomer? (routed : Routed) : Request → Option PersonId
  | .newPerson .. => routed.watching
  | _ => none

def Routed.sender? (routed : Routed) (request : Request) : Option PersonId :=
  (routed.newcomer? request).or request.person?

namespace Registry

variable {registry : Registry}

theorem serves_newPerson (seated : registry.Seated) (room name : String) (keyHash : Option Key.Hash)
    (remote : Address) (now : Nat) (draw : Draw) :
    let served := registry.answer (.newPerson room name) keyHash remote now draw
    registry.Serves served.2 served.1 served.1.watching served.1.watching now := by
  unfold answer
  cases drawn : registry.freshId? draw.ids with
  | none =>
    simp only [join_none room name remote now drawn]
    exact serves_reply seated rfl nofun fun _ _ => rfl
  | some id =>
    obtain ⟨person, later, joined, rfl, _, new, enters, persons⟩ :=
      enters_join room name remote now draw drawn
    simp only [joined]
    have attached := (seated.enters enters).same (same_attach later person.id now)
    have counted (other : PersonId) : (later.attach person.id now).2.person? other =
        if person.id = other then some { person with watchers := person.watchers + 1, lastSeen := now }
        else registry.person? other := by
      rw [person?_attach, persons]
      split
      next => rfl
      next => rfl
    obtain ⟨stream, fine, same⟩ := attached.watch person
      ((counted person.id).trans (if_pos rfl)) rfl 0 keyHash
    have fresh : registry.person? person.id = none := Option.map_eq_none_iff.1 enters.fresh
    rw [stream]
    apply serves_stream { person with watchers := person.watchers + 1, lastSeen := now } fine stream rfl
    · rw [fresh, new]
      rfl
    · exact Or.inl rfl
    · intro other
      rw [person?, same]
      exact counted other

theorem serves_watchPerson (seated : registry.Seated) (id : PersonId) (lastMessage : Nat)
    (keyHash : Option Key.Hash) (remote : Address) (now : Nat) (draw : Draw) :
    let served := registry.answer (.watchPerson id lastMessage) keyHash remote now draw
    registry.Serves served.2 served.1 none (some id) now := by
  have attached := seated.same (same_attach registry id now)
  unfold answer
  simp only
  cases was : registry.person? id with
  | none =>
    have none : (registry.attach id now).2.person? id = none := by
      rw [person?_attach, if_pos rfl, was]
      rfl
    simp only [none]
    apply serves_reply attached rfl
    · intro other person sent known
      obtain rfl := Option.some.inj sent
      rw [none] at known
      cases known
    · intro other different
      rw [person?_attach, if_neg fun here => different (congrArg some here)]
  | some old =>
    have known : (registry.attach id now).2.person? id =
        some { old with watchers := old.watchers + 1, lastSeen := now } := by
      rw [person?_attach, if_pos rfl, was]
      rfl
    simp only [known]
    have owned : old.id = id := seated.named id old was
    obtain ⟨stream, fine, same⟩ := attached.watch { old with
      watchers := old.watchers + 1, lastSeen := now } (owned ▸ known) rfl lastMessage keyHash
    apply serves_stream { old with watchers := old.watchers + 1, lastSeen := now } fine
      (stream.trans (congrArg some owned)) rfl
    · rw [was]
      rfl
    · exact Or.inr ⟨old, was⟩
    · intro other
      rw [person?, same]
      refine (person?_attach registry id other now).trans ?_
      split
      next here =>
        rw [← here, was]
        rfl
      next => rfl

theorem serves_perform (seated : registry.Seated) (request : Request) (id : PersonId)
    (keyHash : Option Key.Hash) (now : Nat) :
    let served := registry.perform request id keyHash now
    registry.Serves served.2 served.1 none (some id) now := by
  have touched := seated.same (same_touch registry id now)
  have seen (other : PersonId) : (registry.touch id now).2.person? other =
      if id = other then (registry.person? other).map fun found => { found with lastSeen := now }
      else registry.person? other := person?_update registry id other _
  have serves {routed : Routed} (reply : routed.watching = none) {after : Registry}
      (fine : after.Seated) (same : ∀ other, after.person? other = (registry.touch id now).2.person? other) :
      registry.Serves after routed none (some id) now := by
    apply serves_reply fine reply
    · intro other person sent known
      obtain rfl := Option.some.inj sent
      rw [same, seen, if_pos rfl] at known
      obtain ⟨old, was, rfl⟩ := Option.map_eq_some_iff.1 known
      exact ⟨old, was, rfl, rfl⟩
    · intro other different
      rw [same, seen, if_neg fun here => different (congrArg some here)]
  unfold perform
  split
  next later touch =>
    rw [touch] at touched serves
    exact serves rfl touched fun _ => rfl
  next person later touch =>
    rw [touch] at touched serves
    simp only
    split
    next action asked =>
      have stays : action.stays = true := by
        cases request <;> cases asked <;> rfl
      exact serves rfl (touched.same (same_act later person.room stays)) fun _ => rfl
    next => exact serves rfl touched fun _ => rfl

theorem serves_leave (seated : registry.Seated) (id : PersonId) (keyHash : Option Key.Hash)
    (remote : Address) (now : Nat) (draw : Draw) :
    let served := registry.answer (.leave id) keyHash remote now draw
    registry.Serves served.2 served.1 none (some id) now := by
  have fine := seated.leaves (leaves_remove registry id)
  have persons := person?_remove registry id
  have serves {routed : Routed} (reply : routed.watching = none) :
      registry.Serves (registry.remove id).2 routed none (some id) now := by
    apply serves_reply fine reply
    · intro other person sent known
      obtain rfl := Option.some.inj sent
      rw [persons, if_pos rfl] at known
      cases known
    · intro other different
      rw [persons, if_neg fun here => different (congrArg some here)]
  unfold answer
  simp only
  split
  next later removed =>
    rw [removed] at serves
    exact serves rfl
  next later removed =>
    rw [removed] at serves
    exact serves rfl

theorem serves_answer (seated : registry.Seated) (request : Request) (keyHash : Option Key.Hash)
    (remote : Address) (now : Nat) (draw : Draw) :
    let served := registry.answer request keyHash remote now draw
    registry.Serves served.2 served.1 (served.1.newcomer? request) (served.1.sender? request) now := by
  cases request with
  | newPerson room name =>
    show registry.Serves _ _ _ (Option.or _ none) now
    rw [Option.or_none]
    exact serves_newPerson seated room name keyHash remote now draw
  | watchPerson id lastMessage => exact serves_watchPerson seated id lastMessage keyHash remote now draw
  | leave id => exact serves_leave seated id keyHash remote now draw
  | sendMessage id | startTyping id | stopTyping id | keepAlive id | shout id | turn id | moveTile id =>
    exact serves_perform seated _ id keyHash now

end Registry

/-- A server and its responses that have not ended, with the ids it gave out so far and
the activities of its persons, the latest first. -/
structure Traffic where
  registry : Registry := {}
  streams : List Routed := []
  given : List PersonId := []
  log : List (PersonId × Nat) := []

inductive TrafficStep where
  | request (target : String) (keyHash : Option Key.Hash) (remote : Address) (now : Nat) (draw : Draw)
  | finish (index now : Nat)
  | check (personTimeout shoutDuration now : Nat)

namespace Traffic

/-- How many streams of a person were opened and have not ended. -/
def openCount (traffic : Traffic) (id : PersonId) : Nat :=
  traffic.streams.countP fun routed => routed.watching = some id

/-- When a person last sent a request, or a stream of theirs last began or ended. -/
def lastActivity? (traffic : Traffic) (id : PersonId) : Option Nat :=
  (traffic.log.find? (·.1 = id)).map (·.2)

def request (traffic : Traffic) (target : String) (keyHash : Option Key.Hash) (remote : Address)
    (now : Nat) (draw : Draw) : Traffic :=
  let (routed, registry) := traffic.registry.route target keyHash remote now draw
  let request := (Request.parse target).toOption
  { registry
    streams := traffic.streams ++ [routed]
    given := traffic.given ++ (request.bind routed.newcomer?).toList
    log := ((request.bind routed.sender?).map (·, now)).toList ++ traffic.log }

def finish (traffic : Traffic) (index now : Nat) : Traffic :=
  match traffic.streams[index]? with
  | none => traffic
  | some routed =>
      { traffic with
        registry := traffic.registry.close routed now
        streams := traffic.streams.eraseIdx index
        log := (routed.watching.map (·, now)).toList ++ traffic.log }

def step (traffic : Traffic) : TrafficStep → Traffic
  | .request target keyHash remote now draw => traffic.request target keyHash remote now draw
  | .finish index now => traffic.finish index now
  | .check personTimeout shoutDuration now =>
      { traffic with registry := traffic.registry.checkTimeouts personTimeout shoutDuration now }

def run (traffic : Traffic) (steps : List TrafficStep) : Traffic :=
  steps.foldl step traffic

/-- The records of the persons agree with the streams and with the activities. -/
structure Counted (traffic : Traffic) : Prop where
  seated : traffic.registry.Seated
  watchers : ∀ id person, traffic.registry.person? id = some person →
    person.watchers = traffic.openCount id
  seen : ∀ id person, traffic.registry.person? id = some person →
    traffic.lastActivity? id = some person.lastSeen
  given : ∀ id person, traffic.registry.person? id = some person → id ∈ traffic.given
  issued : ∀ routed ∈ traffic.streams, ∀ id, routed.watching = some id → id ∈ traffic.given

variable {traffic : Traffic}

theorem counted_empty : ({} : Traffic).Counted :=
  ⟨Registry.seated_empty, nofun, nofun, nofun, nofun⟩

theorem Counted.openCount_unknown (counted : traffic.Counted) {id : PersonId} (new : id ∉ traffic.given) :
    traffic.openCount id = 0 := by
  rw [openCount, List.countP_eq_zero]
  intro routed member watching
  exact new (counted.issued routed member id (of_decide_eq_true watching))

theorem lastActivity?_cons (traffic : Traffic) (active : Option PersonId) (now : Nat) (id : PersonId) :
    (((active.map (·, now)).toList ++ traffic.log).find? (·.1 = id)).map (·.2) =
      if active = some id then some now else traffic.lastActivity? id := by
  cases active with
  | none => rfl
  | some sender =>
    rw [Option.map_some, Option.toList_some, List.singleton_append, List.find?_cons]
    by_cases here : sender = id
    · simp only [here, decide_true, if_true, Option.map_some]
    · simp only [here, decide_false, Option.some.injEq, if_false]
      rfl

theorem Counted.serves (counted : traffic.Counted) {registry : Registry} {routed : Routed}
    {newcomer sender : Option PersonId} {now : Nat}
    (serves : traffic.registry.Serves registry routed newcomer sender now)
    (fresh : ∀ id, newcomer = some id → id ∉ traffic.given) :
    Counted { registry
              streams := traffic.streams ++ [routed]
              given := traffic.given ++ newcomer.toList
              log := (sender.map (·, now)).toList ++ traffic.log } := by
  have grown (id : PersonId) : (traffic.streams ++ [routed]).countP (fun routed => routed.watching = some id) =
      traffic.openCount id + if routed.watching = some id then 1 else 0 := by
    rw [List.countP_append, List.countP_singleton]
    simp only [decide_eq_true_eq]
    rfl
  -- A newcomer was unknown before, and who is unknown has no stream.
  have before (id : PersonId) (person : Person) (known : registry.person? id = some person) :
      (traffic.registry.person? id).elim 0 (·.watchers) = traffic.openCount id := by
    cases was : traffic.registry.person? id with
    | some old => exact counted.watchers id old was
    | none =>
      rcases serves.known id person known with new | ⟨old, there⟩
      · exact (counted.openCount_unknown (fresh id new)).symm
      · rw [was] at there
        cases there
  have given (id : PersonId) (person : Person) (known : registry.person? id = some person) :
      id ∈ traffic.given ++ newcomer.toList := by
    rcases serves.known id person known with new | ⟨old, there⟩
    · rw [new]
      exact List.mem_append_right _ (List.mem_singleton_self id)
    · exact List.mem_append_left _ (counted.given id old there)
  refine ⟨serves.seated, ?_, ?_, given, ?_⟩
  · intro id person known
    refine Eq.trans ?_ (grown id).symm
    by_cases sent : sender = some id
    · rw [(serves.active id person sent known).2, before id person known]
    · have quiet : routed.watching ≠ some id := by
        intro watching
        exact sent (serves.watched id watching).1
      have was := (serves.others id sent).symm.trans known
      rw [if_neg quiet, counted.watchers id person was]
      rfl
  · intro id person known
    refine (lastActivity?_cons traffic sender now id).trans ?_
    by_cases sent : sender = some id
    · rw [if_pos sent, (serves.active id person sent known).1]
    · rw [if_neg sent]
      exact counted.seen id person ((serves.others id sent).symm.trans known)
  · intro stream member id watching
    rcases List.mem_append.1 member with old | new
    · exact List.mem_append_left _ (counted.issued stream old id watching)
    · obtain rfl := List.mem_singleton.1 new
      obtain ⟨_, person, known⟩ := serves.watched id watching
      exact given id person known

theorem Counted.request (counted : traffic.Counted) (target : String) (keyHash : Option Key.Hash)
    (remote : Address) (now : Nat) (draw : Draw)
    (fresh : (traffic.request target keyHash remote now draw).given.Nodup) :
    (traffic.request target keyHash remote now draw).Counted := by
  unfold Traffic.request Registry.route at fresh ⊢
  have unanswered (reply : Reply) : traffic.registry.Serves traffic.registry (.ofReply reply) none none now :=
    Registry.serves_reply counted.seated rfl nofun fun _ _ => rfl
  cases parsed : Request.parse target with
  | error cause =>
    cases cause with
    | unknownRoute text => exact counted.serves (unanswered _) nofun
    | missingArgument route => exact counted.serves (unanswered _) nofun
    | tooManyArguments route => exact counted.serves (unanswered _) nofun
    | invalidArgument kind value => exact counted.serves (unanswered _) nofun
  | ok request =>
    rw [parsed] at fresh
    apply counted.serves (Registry.serves_answer counted.seated request keyHash remote now draw)
    intro id new known
    have member : id ∈ ((traffic.registry.answer request keyHash remote now draw).1.newcomer?
        request).toList := Option.mem_toList.2 new
    exact (List.nodup_append.1 fresh).2.2 id known id member rfl

end Traffic

namespace Registry

variable {registry : Registry}

theorem close_unwatched (registry : Registry) (response : Response) (now : Nat) :
    registry.Same (registry.close ⟨response, none⟩ now) ∧
      (registry.close ⟨response, none⟩ now).persons = registry.persons := by
  unfold close
  cases response with
  | reply reply => exact ⟨Same.refl registry, rfl⟩
  | stream num watch =>
    cases there : registry.lobby.room? num with
    | none =>
      simp only [there]
      exact ⟨Same.refl registry, trivial⟩
    | some room =>
      simp only [there]
      refine ⟨same_setRoom there ?_, trivial⟩
      unfold Room.unwatch
      split <;> rfl

theorem person?_close (seated : registry.Seated) (routed : Routed) (now : Nat) :
    (registry.close routed now).Seated ∧ ∀ id, (registry.close routed now).person? id =
      if routed.watching = some id then (registry.person? id).map fun person =>
        { person with watchers := person.watchers - 1, lastSeen := now }
      else registry.person? id := by
  obtain ⟨response, watching⟩ := routed
  cases watching with
  | none =>
    obtain ⟨same, persons⟩ := close_unwatched registry response now
    refine ⟨seated.same same, ?_⟩
    intro other
    rw [person?, persons, if_neg (Option.some_ne_none other).symm]
    rfl
  | some id =>
    obtain ⟨same, persons⟩ := close_unwatched (registry.detach id now) response now
    refine ⟨(seated.same (same_detach registry id now)).same same, ?_⟩
    intro other
    show ((registry.detach id now).close ⟨response, none⟩ now).person? other = _
    rw [person?, persons]
    refine (person?_update registry id other _).trans ?_
    simp only [Option.some.injEq]

end Registry

namespace Traffic

variable {traffic : Traffic}

theorem Counted.finish (counted : traffic.Counted) (index now : Nat) :
    (traffic.finish index now).Counted := by
  unfold Traffic.finish
  cases there : traffic.streams[index]? with
  | none => exact counted
  | some routed =>
    obtain ⟨inside, here⟩ := List.getElem?_eq_some_iff.1 there
    obtain ⟨fine, persons⟩ := Registry.person?_close counted.seated routed now
    have fewer (id : PersonId) : traffic.openCount id =
        (traffic.streams.eraseIdx index).countP (fun routed => routed.watching = some id) +
          if routed.watching = some id then 1 else 0 := by
      -- The count does not depend on the place of the response that ends.
      have shuffled := List.getElem_cons_eraseIdx_perm inside
      rw [here] at shuffled
      rw [openCount, ← shuffled.countP_eq, List.countP_cons]
      simp only [decide_eq_true_eq]
    have known (id : PersonId) (person : Person)
        (known : (traffic.registry.close routed now).person? id = some person) :
        ∃ old, traffic.registry.person? id = some old := by
      rw [persons] at known
      split at known
      next =>
        obtain ⟨old, was, _⟩ := Option.map_eq_some_iff.1 known
        exact ⟨old, was⟩
      next => exact ⟨person, known⟩
    refine ⟨fine, ?_, ?_, ?_, ?_⟩
    · intro id person known
      show person.watchers = (traffic.streams.eraseIdx index).countP _
      have count := fewer id
      rw [persons] at known
      split at known
      next watching =>
        obtain ⟨old, was, rfl⟩ := Option.map_eq_some_iff.1 known
        rw [if_pos watching] at count
        show old.watchers - 1 = _
        rw [counted.watchers id old was, count, Nat.add_sub_cancel]
      next quiet =>
        rw [if_neg quiet] at count
        exact (counted.watchers id person known).trans count
    · intro id person known
      refine (lastActivity?_cons traffic routed.watching now id).trans ?_
      rw [persons] at known
      split at known
      next watching =>
        obtain ⟨old, was, rfl⟩ := Option.map_eq_some_iff.1 known
        rw [if_pos watching]
      next quiet =>
        rw [if_neg quiet]
        exact counted.seen id person known
    · intro id person there
      obtain ⟨old, was⟩ := known id person there
      exact counted.given id old was
    · intro stream member
      exact counted.issued stream (List.mem_of_mem_eraseIdx member)

theorem Counted.check (counted : traffic.Counted) (personTimeout shoutDuration now : Nat) :
    (traffic.step (.check personTimeout shoutDuration now)).Counted := by
  have old {id : PersonId} {person : Person}
      (known : (traffic.registry.checkTimeouts personTimeout shoutDuration now).person? id =
        some person) : traffic.registry.person? id = some person := by
    rw [Registry.person?_checkTimeouts counted.seated.named] at known
    exact (Option.filter_eq_some_iff.1 known).1
  exact ⟨counted.seated.checkTimeouts personTimeout shoutDuration now,
    fun id person known => counted.watchers id person (old known),
    fun id person known => counted.seen id person (old known),
    fun id person known => counted.given id person (old known), counted.issued⟩

theorem given_step (traffic : Traffic) (step : TrafficStep) :
    traffic.given <+: (traffic.step step).given := by
  cases step with
  | request target keyHash remote now draw => exact List.prefix_append _ _
  | finish index now =>
    unfold Traffic.step Traffic.finish
    simp only
    split
    next => exact List.prefix_refl _
    next => exact List.prefix_refl _
  | check personTimeout shoutDuration now => exact List.prefix_refl _

theorem given_run (traffic : Traffic) (steps : List TrafficStep) :
    traffic.given <+: (traffic.run steps).given := by
  induction steps generalizing traffic with
  | nil => exact List.prefix_refl _
  | cons step rest ih => exact (traffic.given_step step).trans (ih (traffic.step step))

theorem Counted.run (counted : traffic.Counted) (steps : List TrafficStep)
    (fresh : (traffic.run steps).given.Nodup) : (traffic.run steps).Counted := by
  induction steps generalizing traffic with
  | nil => exact counted
  | cons step rest ih =>
    have next : (traffic.step step).given.Nodup :=
      ((traffic.step step).given_run rest).sublist.nodup fresh
    refine ih ?_ fresh
    cases step with
    | request target keyHash remote now draw => exact counted.request target keyHash remote now draw next
    | finish index now => exact counted.finish index now
    | check personTimeout shoutDuration now => exact counted.check personTimeout shoutDuration now

end Traffic

/-- A person whose stream is open is never removed for silence: as long as no id is given
out twice, the persons count their open streams, and a pass over the time limits removes
those who have none and were active last longer ago than the limit. -/
theorem watched_persons_stay (steps : List TrafficStep)
    (fresh : (Traffic.run {} steps).given.Nodup) :
    let traffic := Traffic.run {} steps
    (∀ id person, traffic.registry.person? id = some person →
      person.watchers = traffic.openCount id) ∧
    (∀ routed ∈ traffic.streams, ∀ id person, routed.watching = some id →
      traffic.registry.person? id = some person → 0 < person.watchers) ∧
    ∀ timeout duration now id,
      (traffic.registry.checkTimeouts timeout duration now).person? id =
        (traffic.registry.person? id).filter fun _ =>
          !(traffic.openCount id = 0 && (traffic.lastActivity? id).any (timeout < now - ·)) := by
  intro traffic
  have counted : traffic.Counted := Traffic.counted_empty.run steps fresh
  clear_value traffic
  refine ⟨counted.watchers, ?_, ?_⟩
  · intro routed member id person watching known
    rw [counted.watchers id person known, Traffic.openCount, List.countP_pos_iff]
    exact ⟨routed, member, decide_eq_true watching⟩
  · intro timeout duration now id
    rw [Registry.person?_checkTimeouts counted.seated.named]
    cases known : traffic.registry.person? id with
    | none => rfl
    | some person =>
      rw [counted.seen id person known, ← counted.watchers id person known]
      rfl

/-- The stream that Ann gets when she joins keeps her, and when it has ended she stays for
the time that the limit allows. -/
theorem watched_persons_stay_until_silent :
    let ann : TrafficStep := .request "/new_person?table&Ann" none ⟨.v4 127 0 0 1, 8080⟩ 0 ⟨[7], []⟩
    let opened := Traffic.run {} [ann]
    let closed := Traffic.run {} [ann, .finish 0 50]
    opened.given.Nodup ∧ closed.given.Nodup ∧
      ((opened.registry.checkTimeouts 5 5 100).person? 7).isSome = true ∧
      ((closed.registry.checkTimeouts 5 5 55).person? 7).isSome = true ∧
      ((closed.registry.checkTimeouts 5 5 56).person? 7).isSome = false := by
  intro ann opened closed
  have one : opened.given.Nodup := by decide +kernel
  have still : closed.given.Nodup := by decide +kernel
  have watched := (watched_persons_stay [ann] one).2.2 5 5 100 7
  have silent := (watched_persons_stay [ann, .finish 0 50] still).2.2 5 5
  refine ⟨one, still, ?_, ?_, ?_⟩
  · rw [watched]
    decide +kernel
  · rw [silent 55 7]
    decide +kernel
  · rw [silent 56 7]
    decide +kernel

end TileRoom
