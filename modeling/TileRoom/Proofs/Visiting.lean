import TileRoom.Proofs.Applying
import TileRoom.Proofs.Broadcasting
import TileRoom.Proofs.RequestReading
import TileRoom.Proofs.Serving
import TileRoom.Proofs.Visit

/-! What stays true throughout a visit. A client that knows its id remembers of its room
what it was told, the answer it waits for is a stream of its own or a refusal, and the
bytes that arrived and those on their way are what the server wrote. -/

namespace TileRoom

/-- What a client knows of a server: nothing before the first header, and then what it was
told of the room of its person. -/
structure Knows (registry : Registry) (connection : Connection) (heard : List Event) : Prop where
  nobody : connection.id = none → connection.nextMessage = 0 ∧ heard.filterMap Event.message? = [] ∧
    heard.foldl View.see {} = {}
  somebody : ∀ id, connection.id = some id → ∃ person room, registry.person? id = some person ∧
    registry.lobby.room? person.room = some room ∧
    Recalls room.conversation person.player connection heard

namespace Knows

variable {registry after : Registry} {base connection : Connection} {earlier news : List Event}
  {kept : RoomNum → WatchId → Prop}

theorem mono (knows : Knows registry connection earlier) (leads : registry.Leads kept after) :
    Knows after connection earlier := by
  refine ⟨knows.nobody, ?_⟩
  intro id known
  obtain ⟨person, room, found, there, recalls⟩ := knows.somebody id known
  obtain ⟨later, here, home, player⟩ := leads.persons id person found
  obtain ⟨next, found', turns⟩ := leads.rooms person.room room there
  obtain ⟨changes, altered, _⟩ := turns.altered
  exact ⟨later, next, here, home ▸ found',
    player ▸ recalls.mono altered.players_le altered.turned altered.messages⟩

theorem of_reads (knows : Knows registry base earlier) (reads : Reads base [] connection news) :
    Knows registry connection (earlier ++ news) := by
  have id : connection.id = base.id := reads.person
  have count : connection.nextMessage = base.nextMessage := reads.count
  have messages : (earlier ++ news).filterMap Event.message? = earlier.filterMap Event.message? := by
    rw [List.filterMap_append, reads.messages]
    exact List.append_nil _
  have view : (earlier ++ news).foldl View.see {} = earlier.foldl View.see {} := by
    rw [List.foldl_append, reads.view]
    rfl
  constructor
  · intro none
    rw [count, messages, view]
    exact knows.nobody (id ▸ none)
  · intro person known
    obtain ⟨found, room, there, home, recalls⟩ := knows.somebody person (id ▸ known)
    exact ⟨found, room, there, home, ⟨count ▸ recalls.count, by rw [messages, count, recalls.messages],
      by rw [view]; exact recalls.view⟩⟩

end Knows

namespace Visit

variable {label : Type}

structure Refused (visit : Visit label) (base : Connection) (earlier : List Event) : Prop where
  based : Knows visit.registry base earlier
  waits : ∃ key reply failing delivered news,
    visit.answering.map (·.response) = some (.reply reply) ∧
    (failing = Reply.notFound (some (Key.hash key)) ∨ failing = Reply.badRequest (some (Key.hash key))) ∧
    reply.data = failing.data ∧ delivered ++ visit.inFlight = reply.data.take reply.pos ∧
    base.Listens key delivered [] visit.session.connection news ∧ visit.heard = earlier ++ news

/-- The client is told of a room by a stream of its own: it was `base` and had heard
`earlier` when the stream was opened, and the players in `covered` shouted since. -/
structure Tuned (visit : Visit label) (home : RoomNum) (watch : WatchId) (airing : Airing)
    (covered : Nat → Prop) (base : Connection) (earlier : List Event) : Prop where
  response : visit.answering.map (·.response) = some (.stream home watch)
  person : ∃ person, visit.registry.person? airing.id = some person ∧ person.room = home ∧
    person.player = airing.player
  based : Knows visit.registry base earlier
  first : airing.first = base.nextMessage
  before : airing.before = earlier.foldl View.see {}
  same : base.id = none ∨ base.id = some airing.id
  airs : ∃ room frames delivered got news, visit.registry.lobby.room? home = some room ∧
    room.Broadcasts watch airing covered frames (delivered ++ visit.inFlight) ∧
    base.Listens airing.key delivered got visit.session.connection news ∧ visit.heard = earlier ++ news

variable {visit : Visit label} {home : RoomNum} {watch : WatchId} {airing : Airing} {covered : Nat → Prop}
  {base : Connection} {earlier : List Event}

theorem Tuned.heard_before (tuned : visit.Tuned home watch airing covered base earlier) {room : Room}
    (there : visit.registry.lobby.room? home = some room) :
    earlier.filterMap Event.message? =
      (room.conversation.messages.take airing.first).map Message.spaced := by
  rcases tuned.same with none | some
  · obtain ⟨count, messages, _⟩ := tuned.based.nobody none
    rw [messages, tuned.first, count]
    rfl
  · obtain ⟨person, known, lives, _⟩ := tuned.person
    obtain ⟨found, other, known', there', recalls⟩ := tuned.based.somebody airing.id some
    obtain rfl := Option.some.inj (known.symm.trans known')
    rw [lives, there] at there'
    obtain rfl := Option.some.inj there'
    rw [recalls.messages, tuned.first]

theorem Tuned.knows (tuned : visit.Tuned home watch airing covered base earlier) :
    Knows visit.registry visit.session.connection visit.heard := by
  obtain ⟨room, frames, delivered, got, news, there, broadcasts, listens, heard⟩ := tuned.airs
  obtain ⟨stream, found, airs⟩ := broadcasts.airs
  rw [heard]
  rcases airs.heard broadcasts.consistent listens (List.prefix_append _ _) with silent | ⟨some, told, reads⟩
  · exact tuned.based.of_reads silent
  · obtain ⟨id, recalls, _⟩ := airs.recalls broadcasts.consistent tuned.first tuned.before
      (tuned.heard_before there) told reads
    obtain ⟨person, known, lives, player⟩ := tuned.person
    constructor
    · intro none
      rw [id] at none
      cases none
    · intro other same
      obtain rfl := Option.some.inj (id.symm.trans same)
      exact ⟨person, room, known, lives ▸ there, player ▸ recalls⟩

theorem Refused.knows (refused : visit.Refused base earlier) :
    Knows visit.registry visit.session.connection visit.heard := by
  obtain ⟨_, _, _, _, news, _, _, _, _, listens, heard⟩ := refused.waits
  rw [heard]
  exact refused.based.of_reads listens.reads

theorem Tuned.leads {registry : Registry} {kept : RoomNum → WatchId → Prop}
    (tuned : visit.Tuned home watch airing covered base earlier) (leads : visit.registry.Leads kept registry)
    (keeps : kept home watch) (session : Session label)
    (same : session.connection = visit.session.connection) (lost : List Routed) :
    Tuned { visit with registry, session, lost } home watch airing
      (fun num => covered num ∨
        registry.shouter? home = some num) base earlier := by
  obtain ⟨person, known, lives, player⟩ := tuned.person
  obtain ⟨room, frames, delivered, got, news, there, broadcasts, listens, heard⟩ := tuned.airs
  obtain ⟨later, here, room', player'⟩ := leads.persons airing.id person known
  obtain ⟨next, found, turns⟩ := leads.rooms home room there
  refine ⟨tuned.response, ⟨later, here, room'.trans lives, player'.trans player⟩, tuned.based.mono leads,
    tuned.first, tuned.before, tuned.same, next, frames, delivered, got, news, found, ?_, same ▸ listens, heard⟩
  simp only [Registry.shouter?, found, Option.bind_some]
  exact broadcasts.turns turns keeps

theorem Refused.leads {registry : Registry} {kept : RoomNum → WatchId → Prop}
    (refused : visit.Refused base earlier) (leads : visit.registry.Leads kept registry)
    (session : Session label) (same : session.connection = visit.session.connection) (lost : List Routed) :
    Refused { visit with registry, session, lost } base earlier := by
  obtain ⟨key, reply, failing, delivered, news, response, kind, data, bytes, listens, heard⟩ := refused.waits
  exact ⟨refused.based.mono leads, key, reply, failing, delivered, news, response, kind, data, bytes,
    same ▸ listens, heard⟩

theorem read_eq {routed : Routed} (answering : visit.answering = some routed) (size : Nat) :
    visit.read size = { visit with
      registry := (visit.registry.read routed.response size).2.2
      answering := some { routed with response := (visit.registry.read routed.response size).2.1 }
      inFlight := visit.inFlight ++ (visit.registry.read routed.response size).1 } := by
  unfold Visit.read
  rw [answering]

theorem read_stream {watching : Option PersonId} (answering : visit.answering = some ⟨.stream home watch, watching⟩)
    {room : Room} (there : visit.registry.lobby.room? home = some room) (size : Nat) :
    visit.read size = { visit with
      registry := { visit.registry with lobby := visit.registry.lobby.setRoom home (room.read watch size).2 }
      inFlight := visit.inFlight ++ (room.read watch size).1 } ∧
    (visit.read size).registry.lobby.room? home = some (room.read watch size).2 := by
  have reads : visit.registry.read (.stream home watch) size = ((room.read watch size).1, .stream home watch,
      { visit.registry with lobby := visit.registry.lobby.setRoom home (room.read watch size).2 }) := by
    unfold Registry.read
    simp only
    rw [there]
  rw [read_eq answering, reads, answering]
  refine ⟨rfl, ?_⟩
  simp only
  rw [Lobby.room?_setRoom, if_pos rfl, there]
  rfl

theorem Tuned.read (tuned : visit.Tuned home watch airing covered base earlier)
    (sound : visit.registry.Sound) (size : Nat) :
    (visit.read size).Tuned home watch airing covered base earlier := by
  obtain ⟨person, known, lives, player⟩ := tuned.person
  obtain ⟨room, frames, delivered, got, news, there, broadcasts, listens, heard⟩ := tuned.airs
  obtain ⟨⟨_, watching⟩, answering, rfl⟩ := Option.map_eq_some_iff.1 tuned.response
  obtain ⟨same, found⟩ := read_stream answering there size
  have leads : visit.registry.Leads (fun _ _ => False) (visit.read size).registry := by
    rw [read_eq answering]
    exact (Registry.read_spec sound _ size fun _ _ never => never.elim).2
  obtain ⟨more, next⟩ := broadcasts.read size
  obtain ⟨later, here, room', player'⟩ := leads.persons airing.id person known
  rw [same] at found leads here ⊢
  refine ⟨tuned.response, ⟨later, here, room'.trans lives, player'.trans player⟩, tuned.based.mono leads,
    tuned.first, tuned.before, tuned.same, (room.read watch size).2, frames ++ more, delivered, got, news, found,
    ?_, listens, heard⟩
  rw [List.append_assoc] at next
  exact next

theorem Refused.read (refused : visit.Refused base earlier) (size : Nat) :
    (visit.read size).Refused base earlier := by
  obtain ⟨key, reply, failing, delivered, news, response, kind, data, bytes, listens, heard⟩ := refused.waits
  obtain ⟨routed, answering, same⟩ := Option.map_eq_some_iff.1 response
  obtain ⟨still, more⟩ := reply.read_spec size
  unfold Visit.read
  rw [answering]
  simp only [same, Registry.read]
  refine ⟨refused.based, key, (reply.read size).2, failing, delivered, news, rfl, kind, still.trans data, ?_,
    listens, heard⟩
  rw [← List.append_assoc, bytes, more, still]

theorem knows_fail (knows : Knows visit.registry visit.session.connection visit.heard) (reason : String) :
    Knows (visit.fail reason).registry (visit.fail reason).session.connection (visit.fail reason).heard := by
  have reads := Connection.reads_fail visit.session.connection reason
  unfold Visit.fail Visit.hear Visit.drop
  simp only [Session.connection_hear]
  exact knows.of_reads reads

theorem deliver_ok (answered : visit.answering.isSome = true) {count : Nat}
    (read : (visit.session.connection.receive (visit.inFlight.take count)).1 = .ok ()) :
    visit.deliver count = { visit with inFlight := visit.inFlight.drop count }.hear
      (visit.session.connection.receive (visit.inFlight.take count)).2 := by
  obtain ⟨routed, answering⟩ := Option.isSome_iff_exists.1 answered
  unfold Visit.deliver
  rw [answering]
  simp only [read]

theorem deliver_error (answered : visit.answering.isSome = true) {count : Nat} {cause : ProtocolError}
    (failed : (visit.session.connection.receive (visit.inFlight.take count)).1 = .error cause) :
    visit.deliver count = ({ visit with inFlight := visit.inFlight.drop count }.hear
      (visit.session.connection.receive (visit.inFlight.take count)).2).fail
        (StreamFailure.protocol cause).message := by
  obtain ⟨routed, answering⟩ := Option.isSome_iff_exists.1 answered
  unfold Visit.deliver
  rw [answering]
  simp only [failed]

theorem Tuned.deliver (tuned : visit.Tuned home watch airing covered base earlier) {count : Nat}
    (read : (visit.session.connection.receive (visit.inFlight.take count)).1 = .ok ()) :
    (visit.deliver count).Tuned home watch airing covered base earlier := by
  have response := tuned.response
  obtain ⟨room, frames, delivered, got, news, there, broadcasts, listens, heard⟩ := tuned.airs
  obtain ⟨more, next⟩ := listens.receive read
  rw [deliver_ok (by rw [← Option.isSome_map, response]; rfl) read]
  refine ⟨response, tuned.person, tuned.based, tuned.first, tuned.before, tuned.same, room, frames,
    delivered ++ visit.inFlight.take count, got ++ more,
    news ++ (visit.session.connection.receive (visit.inFlight.take count)).2.events, there, ?_, ?_, ?_⟩
  · simp only [hear]
    rw [List.append_assoc, List.take_append_drop]
    exact broadcasts
  · simp only [hear, Session.connection_hear]
    exact next
  · simp only [hear, heard, List.append_assoc]

theorem Tuned.accepts (tuned : visit.Tuned home watch airing covered base earlier) {room : Room}
    (there : visit.registry.lobby.room? home = some room) (sendable : room.conversation.Sendable)
    (count : Nat) : (visit.session.connection.receive (visit.inFlight.take count)).1 = .ok () := by
  obtain ⟨other, frames, delivered, got, news, found, broadcasts, listens, _⟩ := tuned.airs
  obtain rfl := Option.some.inj (there.symm.trans found)
  obtain ⟨stream, _, airs⟩ := broadcasts.airs
  exact listens.receive_ok (airs.accepted broadcasts.consistent (airs.fits broadcasts.consistent sendable)
    ((List.prefix_append_right_inj _).2 (List.take_prefix _ _)))

theorem Refused.deliver (refused : visit.Refused base earlier) {count : Nat}
    (read : (visit.session.connection.receive (visit.inFlight.take count)).1 = .ok ()) :
    (visit.deliver count).Refused base earlier := by
  obtain ⟨key, reply, failing, delivered, news, response, kind, data, bytes, listens, heard⟩ := refused.waits
  obtain ⟨more, next⟩ := listens.receive read
  obtain ⟨_, _, gives⟩ := next.stream
  have part : delivered ++ visit.inFlight.take count <+: failing.data := by
    have written := List.take_prefix reply.pos reply.data
    rw [← bytes, data] at written
    exact ((List.prefix_append_right_inj _).2 (List.take_prefix _ _)).trans written
  have silent : [] ++ more = [] := IncomingStream.hear_failure kind part gives
  rw [silent] at next
  rw [deliver_ok (by rw [← Option.isSome_map, response]; rfl) read]
  refine ⟨refused.based, key, reply, failing, delivered ++ visit.inFlight.take count,
    news ++ (visit.session.connection.receive (visit.inFlight.take count)).2.events, response, kind, data, ?_, ?_, ?_⟩
  · simp only [hear]
    rw [List.append_assoc, List.take_append_drop]
    exact bytes
  · simp only [hear, Session.connection_hear]
    exact next
  · simp only [hear, heard, List.append_assoc]

theorem route_watchRequest {registry : Registry} (kept : RoomNum → WatchId → Prop) (sound : registry.Sound)
    {connection : Connection} {heard : List Event} (knows : Knows registry connection heard) (key : String)
    (remote : Address) (now : Nat) (draw : Draw) (full : draw.bag.length = tileCount) :
    let served := registry.route (String.ofList connection.watchRequest.target) (some (Key.hash key)) remote
      now draw
    ((∃ failing, served.1.response = .reply failing ∧ (failing = Reply.notFound (some (Key.hash key)) ∨
        failing = Reply.badRequest (some (Key.hash key)))) ∨
      ∃ person room, (connection.id = none ∨ connection.id = some person.id) ∧
        Registry.Granted registry served.2 served.1 connection.nextMessage (some (Key.hash key)) person room) ∧
    served.2.Sound ∧ registry.Leads kept served.2 := by
  unfold Registry.route
  cases known : connection.id with
  | none =>
    have request : connection.watchRequest = .newPerson connection.room connection.name := by
      rw [Connection.watchRequest, known]
    -- Who asks to join has heard no message.
    have count := (knows.nobody known).1
    rw [request]
    cases parsed : Request.parse (String.ofList
      (Request.newPerson connection.room connection.name).target) with
    | error cause =>
      cases cause with
      | unknownRoute =>
        exact ⟨Or.inl ⟨_, rfl, Or.inl rfl⟩, sound, Registry.leads_same sound⟩
      | missingArgument | tooManyArguments | invalidArgument =>
        exact ⟨Or.inl ⟨_, rfl, Or.inr rfl⟩, sound, Registry.leads_same sound⟩
    | ok read =>
      obtain ⟨room, name, rfl⟩ := Request.parse_newPerson parsed
      obtain ⟨either, fine, leads⟩ := Registry.answer_newPerson kept sound room name
        (some (Key.hash key)) remote now draw full
      refine ⟨either.imp (fun refused => ⟨_, refused, Or.inl rfl⟩) ?_, fine, leads⟩
      rintro ⟨person, room, granted⟩
      rw [count]
      exact ⟨person, room, Or.inl rfl, granted⟩
  | some id =>
    have request : connection.watchRequest = .watchPerson id connection.nextMessage := by
      rw [Connection.watchRequest, known]
    rw [request, Request.parse_watchPerson]
    split
    · rename_i read parsed
      split at parsed
      · obtain rfl := Except.ok.inj parsed
        obtain ⟨either, fine, leads⟩ := Registry.answer_watchPerson kept sound id
          connection.nextMessage (some (Key.hash key)) remote now draw
        refine ⟨either.imp (fun refused => ⟨_, refused.2, Or.inl rfl⟩) ?_, fine, leads⟩
        rintro ⟨person, room, same, granted⟩
        exact ⟨person, room, Or.inr (congrArg some same.symm), granted⟩
      · cases parsed
    · exact ⟨Or.inl ⟨_, rfl, Or.inl rfl⟩, sound, Registry.leads_same sound⟩
    · exact ⟨Or.inl ⟨_, rfl, Or.inr rfl⟩, sound, Registry.leads_same sound⟩

theorem broadcasts_granted {before after : Registry} {routed : Routed} {connection : Connection}
    {heard : List Event} (knows : Knows after connection heard) {key : String} {person : Person} {room : Room}
    (id : connection.id = none ∨ connection.id = some person.id)
    (granted : Registry.Granted before after routed connection.nextMessage (some (Key.hash key)) person room) :
    (room.watch person.id person.player connection.nextMessage (some (Key.hash key))).2.Broadcasts
      room.nextWatch ⟨key, person.id, person.player, connection.nextMessage, heard.foldl View.see {}⟩
      (fun num => room.conversation.shouter? = some num) [] [] := by
  have recalls : connection.nextMessage ≤ room.conversation.messages.length ∧
      (heard.foldl View.see {}).Known room.conversation person.player := by
    rcases id with none | some
    · obtain ⟨count, _, view⟩ := knows.nobody none
      rw [count, view]
      exact ⟨Nat.zero_le _, View.known_nothing _ _⟩
    · obtain ⟨other, home, known, there, recalls⟩ := knows.somebody person.id some
      obtain rfl := Option.some.inj (granted.known.symm.trans known)
      obtain rfl := Option.some.inj (granted.there.symm.trans there)
      exact ⟨recalls.count, recalls.view⟩
  exact Room.broadcasts_watch ⟨key, person.id, person.player, _, _⟩ granted.wired
    granted.consistent granted.inside recalls.1 recalls.2

theorem attach_eq {key : String} {remote : Address} {now : Nat} {draw : Draw} {routed : Routed}
    {registry : Registry}
    (served : visit.registry.route (String.ofList visit.session.connection.watchRequest.target)
      (some (Key.hash key)) remote now draw = (routed, registry)) :
    visit.attach key remote now draw =
      hear ⟨registry, visit.session, visit.heard, some routed, [], visit.lost ++ visit.answering.toList⟩
        (visit.session.connection.beginStream key) := by
  simp only [Visit.attach, served, drop]

/-- A request for a stream is refused, or the client is tuned to a stream that no answer
before it was. -/
theorem attach_spec (sound : visit.registry.Sound)
    (knows : Knows visit.registry visit.session.connection visit.heard) (key : String) (remote : Address)
    (now : Nat) (draw : Draw) (full : draw.bag.length = tileCount) :
    let after := visit.attach key remote now draw
    let base := (visit.session.connection.beginStream key).connection
    (after.Refused base after.heard ∨ ∃ home watch airing,
      after.Tuned home watch airing (fun num =>
        after.registry.shouter? home = some num) base after.heard ∧
      (∀ earlier, visit.registry.lobby.room? home = some earlier → earlier.nextWatch ≤ watch) ∧
      (after.registry.stream? home watch).map (·.phase) = some .head) ∧
    after.registry.Sound ∧ visit.registry.Leads (fun _ _ => True) after.registry := by
  obtain ⟨either, fine, leads⟩ := route_watchRequest (fun _ _ => True) sound knows key remote now draw
    full
  have begun := Connection.reads_beginStream visit.session.connection key
  have listens := Connection.listens_beginStream visit.session.connection key
  cases served : visit.registry.route (String.ofList visit.session.connection.watchRequest.target)
    (some (Key.hash key)) remote now draw with
  | mk routed registry =>
  rw [served] at either fine leads
  rw [attach_eq served]
  simp only [hear]
  generalize visit.session.connection.beginStream key = news at begun listens ⊢
  refine ⟨?_, fine, leads⟩
  have based := (knows.mono leads).of_reads begun
  have id : news.connection.id = visit.session.connection.id := begun.person
  have count : news.connection.nextMessage = visit.session.connection.nextMessage := begun.count
  rcases either with ⟨failing, response, kind⟩ | ⟨person, room, same, granted⟩
  · have start : failing.pos = 0 := by rcases kind with rfl | rfl <;> rfl
    refine Or.inl ⟨based, key, failing, failing, [], [], congrArg some response, kind, rfl, ?_, ?_,
      (List.append_nil _).symm⟩
    · rw [start, List.take_zero, List.append_nil]
    · simp only [Session.connection_hear]
      exact listens
  · rw [← count] at granted
    rw [← id] at same
    have broadcasts := broadcasts_granted based same granted
    refine Or.inr ⟨person.room, room.nextWatch, ⟨key, person.id, person.player, news.connection.nextMessage,
      (visit.heard ++ news.events).foldl View.see {}⟩, ⟨congrArg some granted.response,
      ⟨person, granted.known, rfl, rfl⟩, based, rfl, rfl, same, _, [], [], [], [], granted.there, ?_, ?_,
      (List.append_nil _).symm⟩, granted.fresh, ?_⟩
    · rw [Registry.shouter?, granted.there]
      exact broadcasts
    · simp only [Session.connection_hear]
      exact listens
    · rw [Registry.stream?, granted.there, Option.bind_some, Room.stream?_watch, if_pos rfl]
      rfl

end Visit

end TileRoom
