import TileRoom.Proofs.Handshaking
import TileRoom.Proofs.Moving
import TileRoom.Proofs.RequestArguments

/-! How requests are answered. A target names no route, or its arguments do not suit the
route, or it is a request; and a request that is about a person needs that person to be
there. Each of these has an answer of its own, and only a request that is answered well
leaves a trace. -/

namespace TileRoom

theorem Table.update_absent {key value : Type} [DecidableEq key] {table : Table key value} {wanted : key}
    (absent : table.find? wanted = none) (f : value → value) : table.update wanted f = table := by
  have unknown := (Table.find?_eq_none_iff table wanted).1 absent
  obtain ⟨entries, distinct⟩ := table
  have same : entries.map (Table.change wanted f) = entries := by
    refine (List.map_congr_left fun entry member => ?_).trans (List.map_id entries)
    have other : entry.1 ≠ wanted := fun here => unknown (List.mem_map.2 ⟨entry, member, here⟩)
    rw [Table.change, if_neg other]
    rfl
  simp only [Table.update, same]

namespace Request

def routeOf? (target : String) : Option Route :=
  Route.ofName? (String.ofList (splitTarget target.toList).1)

def argumentsOf (target : String) : List (List Char) :=
  splitQuery (splitTarget target.toList).2

def Suits (route : Route) (arguments : List (List Char)) : Prop :=
  faults route.slots arguments = [] ∧ arguments.length = route.slots.length

instance (route : Route) (arguments : List (List Char)) : Decidable (Suits route arguments) :=
  inferInstanceAs (Decidable (_ ∧ _))

/-- A target names a route, but its arguments do not suit. -/
def Malformed (target : String) : Prop :=
  ∃ route, routeOf? target = some route ∧ ¬Suits route (argumentsOf target)

/-- A target is the text of a request, place by place. -/
structure Renders (target : String) (request : Request) : Prop where
  route : routeOf? target = some request.route
  suits : Suits request.route (argumentsOf target)
  places : List.zipWith Slot.read? request.route.slots (argumentsOf target) = request.values.map some

variable {target : String} {request : Request} {route : Route}

theorem parse_unknown (unknown : routeOf? target = none) : ∃ text, parse target = .error (.unknownRoute text) := by
  unfold routeOf? at unknown
  unfold parse
  simp only [unknown]
  exact ⟨_, rfl⟩

theorem parse_known (known : routeOf? target = some route) :
    ReadInOrder route (argumentsOf target) (parse target) := by
  have ordered := readInOrder route (argumentsOf target)
  unfold routeOf? at known
  unfold parse
  simp only [known]
  exact ordered

theorem parse_malformed (malformed : Malformed target) :
    ∃ cause, parse target = .error cause ∧ ∀ text, cause ≠ .unknownRoute text := by
  obtain ⟨route, known, unsuited⟩ := malformed
  have ordered := parse_known known
  by_cases faulty : faults route.slots (argumentsOf target) = []
  · have other : (argumentsOf target).length ≠ route.slots.length := fun same => unsuited ⟨faulty, same⟩
    rcases Nat.lt_or_gt_of_ne other with few | more
    · exact ⟨_, ordered.missing.2 ⟨faulty, few⟩, nofun⟩
    · exact ⟨_, ordered.tooMany.2 ⟨faulty, more⟩, nofun⟩
  · obtain ⟨⟨kind, text⟩, rest, first⟩ := List.exists_cons_of_ne_nil faulty
    exact ⟨_, (ordered.invalid kind text).2 (by rw [first, List.head?_cons]), nofun⟩

theorem parse_eq_ok_iff : parse target = .ok request ↔ Renders target request := by
  constructor
  · intro parsed
    cases named : routeOf? target with
    | none =>
      obtain ⟨text, unknown⟩ := parse_unknown named
      rw [unknown] at parsed
      cases parsed
    | some route =>
      have ordered := parse_known named
      obtain ⟨rfl, places⟩ := ordered.placed request parsed
      exact ⟨named, ordered.accepted.1 ⟨request, parsed⟩, places⟩
  · intro renders
    have ordered := parse_known renders.route
    obtain ⟨other, parsed⟩ := ordered.accepted.2 renders.suits
    obtain ⟨same, places⟩ := ordered.placed other parsed
    have values : other.values = request.values :=
      (List.map_inj_right fun _ _ => Option.some.inj).1 (places.symm.trans renders.places)
    rw [parsed, eq_of_values same values]

theorem unknown_or_malformed_or_renders (target : String) :
    routeOf? target = none ∨ Malformed target ∨ ∃ request, Renders target request := by
  cases named : routeOf? target with
  | none => exact Or.inl rfl
  | some route =>
    by_cases suits : Suits route (argumentsOf target)
    · obtain ⟨request, parsed⟩ := (parse_known named).accepted.2 suits
      exact Or.inr (Or.inr ⟨request, parse_eq_ok_iff.1 parsed⟩)
    · exact Or.inr (Or.inl ⟨route, named, suits⟩)

end Request

def statusLine (start : Bytes) : Bytes :=
  start.takeWhile (· ≠ 0x0D)

theorem statusLine_render (status : String) (plain : '\r' ∉ status.toList) (keyHash : Option Key.Hash)
    (extra : List Char) (rest : Bytes) :
    statusLine (Utf8.encode (ResponseHead.render status keyHash extra) ++ rest) =
      Utf8.encode ("HTTP/1.1 ".toList ++ status.toList) := by
  have line : '\r' ∉ "HTTP/1.1 ".toList ++ status.toList := by
    rw [List.mem_append, not_or]
    exact ⟨by decide, plain⟩
  have inside : (0x0D : UInt8) ∉ Utf8.encode ("HTTP/1.1 ".toList ++ status.toList) :=
    Utf8.not_mem_encode (c := '\r') (by decide) line
  have behind : Utf8.encode "\r\n".toList = 0x0D :: [0x0A] := by decide +kernel
  have split (more : List Char) : Utf8.encode ("HTTP/1.1 ".toList ++ (status.toList ++ ("\r\n".toList ++ more))) =
      Utf8.encode ("HTTP/1.1 ".toList ++ status.toList) ++ 0x0D :: 0x0A :: Utf8.encode more := by
    rw [← List.append_assoc, Utf8.encode_append, Utf8.encode_append "\r\n".toList, behind]
    rfl
  unfold ResponseHead.render
  simp only [List.append_assoc, split, List.cons_append]
  exact Cut.takeWhile_ne_append _ _ inside

namespace Registry

variable {registry : Registry} {request : Request} {id : PersonId} {keyHash : Option Key.Hash}
  {remote : Address} {now : Nat} {draw : Draw}

def statusLine? (registry : Registry) (response : Response) : Option Bytes :=
  (registry.start? response).map statusLine

/-- A stream that was opened in the name of a person, who will be told that the request was
granted. -/
def Opens (found : Routed × Registry) (id : PersonId) : Prop :=
  ∃ num watch, found.1 = ⟨.stream num watch, some id⟩ ∧
    found.2.statusLine? found.1.response = some (bytesOf "HTTP/1.1 200 OK")

def Unfound (registry : Registry) (request : Request) : Prop :=
  ∃ id, request.person? = some id ∧ registry.person? id = none

def viewer? (registry : Registry) (draw : Draw) : Request → Option PersonId
  | .newPerson .. => registry.freshId? draw.ids
  | .watchPerson id _ => (registry.person? id).map fun _ => id
  | _ => none

theorem answer_unfound (unfound : registry.Unfound request) (keyHash : Option Key.Hash) (remote : Address)
    (now : Nat) (draw : Draw) :
    registry.answer request keyHash remote now draw = (.ofReply (.notFound keyHash), registry) := by
  obtain ⟨id, asked, unknown⟩ := unfound
  have same (f : Person → Person) :
      ({ registry with persons := registry.persons.update id f } : Registry) = registry := by
    rw [Table.update_absent unknown]
  have performs (request : Request) :
      registry.perform request id keyHash now = (.ofReply (.notFound keyHash), registry) := by
    unfold perform touch
    simp only [same, unknown]
  cases request with
  | newPerson => cases asked
  | watchPerson other lastMessage =>
    obtain rfl := Option.some.inj asked
    unfold answer attach
    simp only [same, unknown]
  | leave other =>
    obtain rfl := Option.some.inj asked
    unfold answer remove
    simp only [unknown]
  | sendMessage | startTyping | stopTyping | keepAlive | shout | turn | moveTile =>
    obtain rfl := Option.some.inj asked
    unfold answer
    exact performs _

theorem opens_watch (registry : Registry) (person : Person) {room : Room}
    (there : registry.lobby.room? person.room = some room) (lastMessage : Nat) (keyHash : Option Key.Hash) :
    Opens (registry.watch person lastMessage keyHash) person.id := by
  have start := registry.start?_watch person there lastMessage keyHash
  refine ⟨person.room, room.nextWatch, ?_, ?_⟩
  · unfold watch
    simp only [there]
    rfl
  · rw [statusLine?, start, Option.map_some]
    exact congrArg some (statusLine_render "200 OK" (by decide) keyHash _ _)

theorem answer_viewer (seated : registry.Seated) (viewer : registry.viewer? draw request = some id)
    (keyHash : Option Key.Hash) (remote : Address) (now : Nat) :
    Opens (registry.answer request keyHash remote now draw) id := by
  cases request with
  | newPerson roomName name =>
    obtain ⟨person, later, joined, rfl, _, _, enters, persons⟩ :=
      enters_join roomName name remote now draw viewer
    have attached := (seated.enters enters).same (same_attach later person.id now)
    have known := person?_attach later person.id person.id now
    rw [if_pos rfl, persons, if_pos rfl, Option.map_some] at known
    obtain ⟨room, there⟩ := attached.home known
    unfold answer
    simp only [joined]
    exact opens_watch _ person there 0 keyHash
  | watchPerson other lastMessage =>
    obtain ⟨person, known, rfl⟩ := Option.map_eq_some_iff.1 viewer
    have attached := seated.same (same_attach registry other now)
    have counted := person?_attach registry other other now
    rw [if_pos rfl, known, Option.map_some] at counted
    obtain ⟨room, there⟩ := attached.home counted
    have named : person.id = other := seated.named other person known
    unfold answer
    simp only [counted]
    have opens := opens_watch (registry.attach other now).2
      { person with watchers := person.watchers + 1, lastSeen := now } there lastMessage keyHash
    exact named ▸ opens
  | sendMessage | startTyping | stopTyping | keepAlive | leave | shout | turn | moveTile => cases viewer

theorem answer_plain (plain : registry.viewer? draw request = none) (found : ¬registry.Unfound request)
    (drawn : ∃ id ∈ draw.ids, registry.person? id = none) (keyHash : Option Key.Hash) (remote : Address)
    (now : Nat) :
    (registry.answer request keyHash remote now draw).1 = .ofReply (.ok keyHash) := by
  have there {id : PersonId} (asked : request.person? = some id) :
      ∃ person, registry.person? id = some person :=
    Option.ne_none_iff_exists'.1 fun unknown => found ⟨id, asked, unknown⟩
  have performs (request : Request) {id : PersonId} {person : Person}
      (known : registry.person? id = some person) :
      (registry.perform request id keyHash now).1 = .ofReply (.ok keyHash) := by
    have seen := person?_update registry id id fun person => { person with lastSeen := now }
    rw [if_pos rfl, known, Option.map_some] at seen
    unfold perform touch
    simp only [seen]
  cases request with
  | newPerson roomName name =>
    obtain ⟨id, member, free⟩ := drawn
    have used := List.find?_eq_none.1 plain id member
    rw [Table.contains] at used
    rw [person?] at free
    rw [free] at used
    exact absurd rfl used
  | watchPerson id lastMessage =>
    obtain ⟨person, known⟩ := there rfl
    simp only [viewer?, known] at plain
    cases plain
  | leave id =>
    obtain ⟨person, known⟩ := there rfl
    unfold answer remove
    simp only [known]
  | sendMessage | startTyping | stopTyping | keepAlive | shout | turn | moveTile =>
    obtain ⟨person, known⟩ := there rfl
    exact performs _ known

theorem answer_granted (seated : registry.Seated) (found : ¬registry.Unfound request)
    (drawn : ∃ id ∈ draw.ids, registry.person? id = none) (keyHash : Option Key.Hash) (remote : Address)
    (now : Nat) :
    let answered := registry.answer request keyHash remote now draw
    answered.1.watching = registry.viewer? draw request ∧
      (∀ id, registry.viewer? draw request = some id → Opens answered id) ∧
      (registry.viewer? draw request = none → answered.1 = .ofReply (.ok keyHash)) := by
  cases viewer : registry.viewer? draw request with
  | some id =>
    have opens := answer_viewer seated viewer keyHash remote now
    have watching : (registry.answer request keyHash remote now draw).1.watching = some id := by
      obtain ⟨num, watch, stream, _⟩ := opens
      rw [stream]
    refine ⟨watching, ?_, nofun⟩
    intro other same
    rwa [← Option.some.inj same]
  | none =>
    have plain := answer_plain viewer found drawn keyHash remote now
    refine ⟨?_, nofun, fun _ => plain⟩
    rw [plain]
    rfl

/-- A target asks for nothing that is there: it names no route, or it is a request for a
person who is not there. -/
def Lost (registry : Registry) (target : String) : Prop :=
  Request.routeOf? target = none ∨ ∃ request, Request.Renders target request ∧ registry.Unfound request

def Grants (registry : Registry) (target : String) : Prop :=
  ∃ request, Request.Renders target request ∧ ¬registry.Unfound request

theorem lost_or_malformed_or_grants (registry : Registry) (target : String) :
    registry.Lost target ∨ Request.Malformed target ∨ registry.Grants target := by
  rcases Request.unknown_or_malformed_or_renders target with unknown | malformed | ⟨request, renders⟩
  · exact Or.inl (Or.inl unknown)
  · exact Or.inr (Or.inl malformed)
  · by_cases unfound : registry.Unfound request
    · exact Or.inl (Or.inr ⟨request, renders, unfound⟩)
    · exact Or.inr (Or.inr ⟨request, renders, unfound⟩)

variable {target : String}

theorem Grants.not_malformed (grants : registry.Grants target) : ¬Request.Malformed target := by
  obtain ⟨request, renders, _⟩ := grants
  intro malformed
  obtain ⟨route, known, unsuited⟩ := malformed
  obtain rfl := Option.some.inj (known.symm.trans renders.route)
  exact unsuited renders.suits

theorem Lost.not_malformed (lost : registry.Lost target) : ¬Request.Malformed target := by
  intro malformed
  obtain ⟨cause, failed, known⟩ := Request.parse_malformed malformed
  rcases lost with unknown | ⟨request, renders, _⟩
  · obtain ⟨text, other⟩ := Request.parse_unknown unknown
    exact known text (Except.error.inj (failed.symm.trans other))
  · rw [← Request.parse_eq_ok_iff, failed] at renders
    cases renders

theorem renders_unique {other : Request} (renders : Request.Renders target request)
    (also : Request.Renders target other) : other = request := by
  rw [← Request.parse_eq_ok_iff] at renders also
  exact Except.ok.inj (also.symm.trans renders)

theorem Grants.not_lost (grants : registry.Grants target) : ¬registry.Lost target := by
  obtain ⟨request, renders, found⟩ := grants
  intro lost
  rcases lost with unknown | ⟨other, also, unfound⟩
  · rw [renders.route] at unknown
    cases unknown
  · rw [renders_unique renders also] at unfound
    exact found unfound

theorem grants_of_viewer (renders : Request.Renders target request)
    (viewer : registry.viewer? draw request = some id) : registry.Grants target := by
  refine ⟨request, renders, ?_⟩
  intro unfound
  obtain ⟨other, asked, unknown⟩ := unfound
  cases request with
  | newPerson => cases asked
  | watchPerson =>
    obtain rfl := Option.some.inj asked
    rw [viewer?, unknown] at viewer
    cases viewer
  | sendMessage | startTyping | stopTyping | keepAlive | leave | shout | turn | moveTile => cases viewer

theorem route_lost (lost : registry.Lost target) (keyHash : Option Key.Hash) (remote : Address) (now : Nat)
    (draw : Draw) :
    registry.route target keyHash remote now draw = (.ofReply (.notFound keyHash), registry) ∧
      registry.moves (.route target keyHash remote now draw) = [] := by
  unfold route moves
  rcases lost with unknown | ⟨request, renders, unfound⟩
  · obtain ⟨text, failed⟩ := Request.parse_unknown unknown
    simp only [failed]
    exact ⟨trivial, trivial⟩
  · simp only [Request.parse_eq_ok_iff.2 renders]
    refine ⟨answer_unfound unfound keyHash remote now draw, ?_⟩
    obtain ⟨id, asked, unknown⟩ := unfound
    have nobody : registry.sender? request = none := by
      rw [sender?, asked, Option.bind_some, unknown]
    unfold answerMoves
    split
    next => cases asked
    next => rw [nobody]

theorem route_malformed (registry : Registry) (malformed : Request.Malformed target)
    (keyHash : Option Key.Hash) (remote : Address) (now : Nat) (draw : Draw) :
    registry.route target keyHash remote now draw = (.ofReply (.badRequest keyHash), registry) ∧
      registry.moves (.route target keyHash remote now draw) = [] := by
  obtain ⟨cause, failed, known⟩ := Request.parse_malformed malformed
  unfold route moves
  simp only [failed]
  cases cause with
  | unknownRoute text => exact absurd rfl (known text)
  | missingArgument | tooManyArguments | invalidArgument => exact ⟨trivial, trivial⟩

theorem statusLine_ofBody (status body : String) (plain : '\r' ∉ status.toList) (keyHash : Option Key.Hash) :
    registry.statusLine? (.reply (.ofBody status keyHash body)) =
      some (Utf8.encode ("HTTP/1.1 ".toList ++ status.toList)) :=
  congrArg some (statusLine_render status plain keyHash _ (bytesOf body))

theorem statusLine_ok (keyHash : Option Key.Hash) :
    registry.statusLine? (.reply (.ok keyHash)) = some (bytesOf "HTTP/1.1 200 OK") :=
  statusLine_ofBody "200 OK" _ (by decide) keyHash

theorem statusLine_badRequest (registry : Registry) (keyHash : Option Key.Hash) :
    registry.statusLine? (.reply (.badRequest keyHash)) = some (bytesOf "HTTP/1.1 400 Bad Request") :=
  statusLine_ofBody "400 Bad Request" _ (by decide) keyHash

theorem statusLine_notFound (registry : Registry) (keyHash : Option Key.Hash) :
    registry.statusLine? (.reply (.notFound keyHash)) = some (bytesOf "HTTP/1.1 404 Not Found") :=
  statusLine_ofBody "404 Not Found" _ (by decide) keyHash

/-- How the target of a request is answered, and what an answer leaves behind. -/
structure Classifies (registry : Registry) (target : String) (keyHash : Option Key.Hash) (draw : Draw)
    (found : Routed × Registry) (signals : List (RoomNum × Change)) : Prop where
  notFound : found.1 = .ofReply (.notFound keyHash) ↔ registry.Lost target
  badRequest : found.1 = .ofReply (.badRequest keyHash) ↔ Request.Malformed target
  granted : found.2.statusLine? found.1.response = some (bytesOf "HTTP/1.1 200 OK") ↔
    ¬registry.Lost target ∧ ¬Request.Malformed target
  watching : ∀ id, found.1.watching = some id ↔
    ∃ request, Request.Renders target request ∧ registry.viewer? draw request = some id
  opens : ∀ id, found.1.watching = some id → Opens found id
  plain : found.1.watching = none → registry.Grants target → found.1 = .ofReply (.ok keyHash)
  unchanged : registry.Lost target ∨ Request.Malformed target → found.2 = registry ∧ signals = []

theorem ne_of_statusLine {found : Routed × Registry} {reply : Reply} {line other : String}
    (line? : found.2.statusLine? found.1.response = some (bytesOf line))
    (other? : found.2.statusLine? (.reply reply) = some (bytesOf other))
    (different : bytesOf line ≠ bytesOf other) : found.1 ≠ .ofReply reply := by
  intro same
  rw [same] at line?
  exact different (Option.some.inj (line?.symm.trans other?))

theorem unviewed (denied : ¬registry.Grants target) (id : PersonId) :
    ¬∃ request, Request.Renders target request ∧ registry.viewer? draw request = some id := by
  rintro ⟨request, renders, viewer⟩
  exact denied (grants_of_viewer renders viewer)

theorem classifies_lost (lost : registry.Lost target) (keyHash : Option Key.Hash) (draw : Draw) :
    registry.Classifies target keyHash draw (.ofReply (.notFound keyHash), registry) [] := by
  have line := registry.statusLine_notFound keyHash
  have denied (grants : registry.Grants target) : False := grants.not_lost lost
  constructor
  case notFound => exact iff_of_true rfl lost
  case badRequest =>
    refine iff_of_false ?_ lost.not_malformed
    exact ne_of_statusLine line (registry.statusLine_badRequest keyHash) (by decide +kernel)
  case granted =>
    refine iff_of_false ?_ fun fine => fine.1 lost
    intro other
    exact absurd (Option.some.inj (other.symm.trans line)) (by decide +kernel)
  case watching => exact fun id => iff_of_false nofun (unviewed denied id)
  case opens => exact nofun
  case plain => exact fun _ grants => (denied grants).elim
  case unchanged => exact fun _ => ⟨rfl, rfl⟩

theorem classifies_malformed (registry : Registry) (malformed : Request.Malformed target)
    (keyHash : Option Key.Hash) (draw : Draw) :
    registry.Classifies target keyHash draw (.ofReply (.badRequest keyHash), registry) [] := by
  have line := registry.statusLine_badRequest keyHash
  have denied (grants : registry.Grants target) : False := grants.not_malformed malformed
  constructor
  case notFound =>
    refine iff_of_false ?_ fun lost => lost.not_malformed malformed
    exact ne_of_statusLine line (registry.statusLine_notFound keyHash) (by decide +kernel)
  case badRequest => exact iff_of_true rfl malformed
  case granted =>
    refine iff_of_false ?_ fun fine => fine.2 malformed
    intro other
    exact absurd (Option.some.inj (other.symm.trans line)) (by decide +kernel)
  case watching => exact fun id => iff_of_false nofun (unviewed denied id)
  case opens => exact nofun
  case plain => exact fun _ grants => (denied grants).elim
  case unchanged => exact fun _ => ⟨rfl, rfl⟩

theorem classifies_granted (seated : registry.Seated) (grants : registry.Grants target) (keyHash : Option Key.Hash)
    (remote : Address) (now : Nat) (draw : Draw) (drawn : ∃ id ∈ draw.ids, registry.person? id = none)
    (signals : List (RoomNum × Change)) :
    registry.Classifies target keyHash draw (registry.route target keyHash remote now draw) signals := by
  have fine : ¬registry.Lost target ∧ ¬Request.Malformed target := ⟨grants.not_lost, grants.not_malformed⟩
  obtain ⟨request, renders, found⟩ := grants
  obtain ⟨watching, opens, plain⟩ := answer_granted seated found drawn keyHash remote now
  have routed : registry.route target keyHash remote now draw =
      registry.answer request keyHash remote now draw := by
    rw [route, Request.parse_eq_ok_iff.2 renders]
  rw [routed]
  generalize registry.answer request keyHash remote now draw = answered at watching opens plain
  have line : answered.2.statusLine? answered.1.response = some (bytesOf "HTTP/1.1 200 OK") := by
    cases viewer : registry.viewer? draw request with
    | some id =>
      obtain ⟨num, watch, _, line⟩ := opens id viewer
      exact line
    | none =>
      rw [plain viewer]
      exact statusLine_ok keyHash
  constructor
  case notFound =>
    refine iff_of_false ?_ fine.1
    exact ne_of_statusLine line (registry.statusLine_notFound keyHash) (by decide +kernel)
  case badRequest =>
    refine iff_of_false ?_ fine.2
    exact ne_of_statusLine line (registry.statusLine_badRequest keyHash) (by decide +kernel)
  case granted => exact iff_of_true line fine
  case watching =>
    intro id
    rw [watching]
    constructor
    · exact fun viewer => ⟨request, renders, viewer⟩
    · intro viewed
      obtain ⟨other, also, viewer⟩ := viewed
      rwa [renders_unique renders also] at viewer
  case opens =>
    intro id watched
    exact opens id (watching.symm.trans watched)
  case plain =>
    intro unwatched _
    exact plain (watching.symm.trans unwatched)
  case unchanged => exact fun failed => absurd failed (not_or.2 fine)

theorem classifies_route (seated : registry.Seated) (target : String) (keyHash : Option Key.Hash)
    (remote : Address) (now : Nat) (draw : Draw) (drawn : ∃ id ∈ draw.ids, registry.person? id = none) :
    registry.Classifies target keyHash draw (registry.route target keyHash remote now draw)
      (registry.lobby.signals (registry.moves (.route target keyHash remote now draw))) := by
  rcases registry.lost_or_malformed_or_grants target with lost | malformed | grants
  · obtain ⟨found, none⟩ := route_lost lost keyHash remote now draw
    rw [found, none]
    exact classifies_lost lost keyHash draw
  · obtain ⟨found, none⟩ := registry.route_malformed malformed keyHash remote now draw
    rw [found, none]
    exact registry.classifies_malformed malformed keyHash draw
  · exact classifies_granted seated grants keyHash remote now draw drawn _

end Registry

/-- Every request is answered as it deserves: not found exactly when it names no route or a
person who is not there, a bad request exactly when its arguments do not suit its route, and
granted otherwise, with a stream exactly for those who come or watch. A request that fails
leaves the server as it was, and no signal goes out. -/
theorem requests_classified (steps : List ServerStep) (target : String) (keyHash : Option Key.Hash)
    (remote : Address) (now : Nat) (draw : Draw)
    (drawn : ∃ id ∈ draw.ids, (Registry.serveAll {} steps).person? id = none) :
    let registry := Registry.serveAll {} steps
    registry.Classifies target keyHash draw (registry.route target keyHash remote now draw)
      (registry.lobby.signals (registry.moves (.route target keyHash remote now draw))) :=
  Registry.classifies_route (Registry.seated_empty.serveAll steps) target keyHash remote now draw drawn

/-- Ann is there. Who watches her is granted a stream, a stranger who leaves is not found, and
an id of one digit is none. -/
theorem requests_classified_at_table :
    let remote : Address := ⟨.v4 127 0 0 1, 8080⟩
    let registry := Registry.serveAll {} [.route "/new_person?table&Ann" none remote 0 ⟨[7], []⟩]
    let answer (target : String) := registry.route target none remote 1 ⟨[7, 8], []⟩
    (∃ id ∈ [7, 8], registry.person? id = none) ∧
      (answer "/watch_person?0000000000000007&0").1.watching = some 7 ∧
      (answer "/leave?0000000000000009").1 = .ofReply (.notFound none) ∧
      (answer "/leave?0000000000000009").2 = registry ∧
      (answer "/leave?9").1 = .ofReply (.badRequest none) ∧ (answer "/leave?9").2 = registry := by
  intro remote registry answer
  have drawn : ∃ id ∈ [7, 8], registry.person? id = none :=
    ⟨8, by simp, by decide +kernel⟩
  have classified (target : String) := requests_classified
    [.route "/new_person?table&Ann" none remote 0 ⟨[7], []⟩] target none remote 1 ⟨[7, 8], []⟩ drawn
  have watch := classified "/watch_person?0000000000000007&0"
  have stranger := classified "/leave?0000000000000009"
  have short := classified "/leave?9"
  have lost : registry.Lost "/leave?0000000000000009" :=
    Or.inr ⟨.leave 9, Request.parse_eq_ok_iff.1 (by rfl), 9, rfl, by decide +kernel⟩
  have malformed : Request.Malformed "/leave?9" :=
    ⟨.leave, by decide +kernel, by decide +kernel⟩
  refine ⟨drawn, ?_, stranger.notFound.2 lost, (stranger.unchanged (Or.inl lost)).1,
    short.badRequest.2 malformed, (short.unchanged (Or.inr malformed)).1⟩
  exact (watch.watching 7).2 ⟨.watchPerson 7 0, Request.parse_eq_ok_iff.1 (by rfl), by decide +kernel⟩

end TileRoom
