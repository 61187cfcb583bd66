import TileRoom.Proofs.Counting
import TileRoom.Server.Link

/-! What a server does to its rooms, taken apart. Whatever it is asked, its rooms change by a
few moves, which can be told beforehand: a request of a person is at most one move in the
room of that person, and only operations give out changes. -/

namespace TileRoom

inductive RoomMove where
  | act (action : Action)
  | watch (id : PersonId) (player lastMessage : Nat) (keyHash : Option Key.Hash)
  | unwatch (watch : WatchId)
  | read (watch : WatchId) (size : Nat)
  | takeNotice (watch : WatchId)

def RoomMove.action? : RoomMove → Option Action
  | .act action => some action
  | .watch .. | .unwatch _ | .read .. | .takeNotice _ => none

/-- What can happen to the rooms: a name is looked up for a join, closed rooms are forgotten,
and something happens within one room. -/
inductive LobbyMove where
  | enter (name : String) (bag : List Char)
  | prune
  | within (num : RoomNum) (move : RoomMove)

namespace Room

def move (room : Room) : RoomMove → Room
  | .act action => (room.act action).2
  | .watch id player lastMessage keyHash => (room.watch id player lastMessage keyHash).2
  | .unwatch watch => (room.unwatch watch).2
  | .read watch size => (room.read watch size).2
  | .takeNotice watch => (room.takeNotice watch).2

theorem conversation_move (room : Room) (move : RoomMove) :
    (room.move move).conversation =
      move.action?.elim room.conversation fun action => (room.conversation.act action).after := by
  cases move with
  | act action => exact conversation_act room action
  | watch => rfl
  | unwatch watch =>
    change (room.unwatch watch).2.conversation = room.conversation
    unfold unwatch
    split <;> rfl
  | read watch size => exact conversation_read room watch size
  | takeNotice => rfl

theorem wired_move {room : Room} (wired : room.Wired) (move : RoomMove) : (room.move move).Wired := by
  cases move with
  | act action => exact wired_act wired action
  | watch id player lastMessage keyHash => exact wired_watch wired id player lastMessage keyHash
  | unwatch watch => exact wired_unwatch wired watch
  | read watch size => exact wired_read wired watch size
  | takeNotice watch => exact wired_updateStream wired watch ({ · with notified := false })

end Room

namespace Lobby

def move (lobby : Lobby) : LobbyMove → Lobby
  | .enter name bag => (lobby.enter name bag).2
  | .prune => lobby.prune
  | .within num move =>
      match lobby.room? num with
      | none => lobby
      | some room => lobby.setRoom num (room.move move)

def moveAll (lobby : Lobby) (moves : List LobbyMove) : Lobby :=
  moves.foldl move lobby

theorem moveAll_cons (lobby : Lobby) (move : LobbyMove) (rest : List LobbyMove) :
    lobby.moveAll (move :: rest) = (lobby.move move).moveAll rest :=
  rfl

theorem moveAll_append (lobby : Lobby) (first later : List LobbyMove) :
    lobby.moveAll (first ++ later) = (lobby.moveAll first).moveAll later :=
  List.foldl_append

def signal (lobby : Lobby) : LobbyMove → List (RoomNum × Change)
  | .enter .. | .prune => []
  | .within num move =>
      match lobby.room? num, move.action? with
      | some room, some action => (room.conversation.act action).changes.map (num, ·)
      | _, _ => []

def signals (lobby : Lobby) : List LobbyMove → List (RoomNum × Change)
  | [] => []
  | move :: rest => lobby.signal move ++ (lobby.move move).signals rest

theorem room?_within (lobby : Lobby) (num other : RoomNum) (move : RoomMove) :
    (lobby.move (.within num move)).room? other =
      if num = other then (lobby.room? other).map (·.move move) else lobby.room? other := by
  rw [Lobby.move]
  cases there : lobby.room? num with
  | none =>
    by_cases here : num = other
    · rw [if_pos here, ← here, there, Option.map_none]
    · rw [if_neg here]
  | some room =>
    simp only
    rw [room?_setRoom]
    by_cases here : num = other
    · rw [if_pos here, if_pos here, ← here, there, Option.map_some, Option.map_some]
    · rw [if_neg here, if_neg here]

theorem pending_within (lobby : Lobby) (num : RoomNum) (move : RoomMove) :
    (lobby.move (.within num move)).pending = lobby.pending := by
  rw [Lobby.move]
  split <;> rfl

theorem length_within (lobby : Lobby) (num : RoomNum) (move : RoomMove) :
    (lobby.move (.within num move)).rooms.length = lobby.rooms.length := by
  rw [Lobby.move]
  split
  next => rfl
  next => exact List.length_set

theorem act_eq_move (lobby : Lobby) (num : RoomNum) (action : Action) :
    (lobby.act num action).2 = lobby.move (.within num (.act action)) := by
  unfold Lobby.act Lobby.move
  split
  next none => simp only [none]
  next room there =>
    simp only [there]
    rfl

theorem setRoom_eq_move {lobby : Lobby} {num : RoomNum} {room : Room}
    (there : lobby.room? num = some room) (move : RoomMove) :
    lobby.setRoom num (room.move move) = lobby.move (.within num move) := by
  simp only [Lobby.move, there]

theorem move_absent {lobby : Lobby} {num : RoomNum} (absent : lobby.room? num = none)
    (move : RoomMove) : lobby.move (.within num move) = lobby := by
  simp only [Lobby.move, absent]

def Everywhere (lobby : Lobby) (property : Room → Prop) : Prop :=
  ∀ num room, lobby.room? num = some room → property room

section

variable {lobby : Lobby} {property : Room → Prop} (made : ∀ bag, property (.ofBag bag))
  (kept : ∀ {room} move, property room → property (room.move move))

include made kept

theorem Everywhere.move (holds : lobby.Everywhere property) (move : LobbyMove) :
    (lobby.move move).Everywhere property := by
  intro num room there
  cases move with
  | enter name bag =>
    rcases (Registry.enter_spec lobby name bag).2 num room there with old | rfl
    · exact holds num room old
    · exact made bag
  | prune => exact holds num room there
  | within other inner =>
    rw [room?_within] at there
    split at there
    next =>
      obtain ⟨before, known, rfl⟩ := Option.map_eq_some_iff.1 there
      exact kept inner (holds num before known)
    next => exact holds num room there

theorem Everywhere.moveAll (holds : lobby.Everywhere property) (moves : List LobbyMove) :
    (lobby.moveAll moves).Everywhere property := by
  induction moves generalizing lobby with
  | nil => exact holds
  | cons move rest ih => exact ih (holds.move made kept move)

end

end Lobby

/-- What a server does: it routes a request, tends to its responses and looks at the time
limits. -/
inductive ServerStep where
  | route (target : String) (keyHash : Option Key.Hash) (remote : Address) (now : Nat) (draw : Draw)
  | read (response : Response) (size : Nat)
  | takeNotice (response : Response)
  | close (routed : Routed) (now : Nat)
  | check (personTimeout shoutDuration now : Nat)

def Response.stream? : Response → Option (RoomNum × WatchId)
  | .reply _ => none
  | .stream num watch => some (num, watch)

def ServerStep.response? : ServerStep → Option Response
  | .read response _ | .takeNotice response => some response
  | .close routed _ => some routed.response
  | .route .. | .check .. => none

def ServerStep.stream? (step : ServerStep) : Option (RoomNum × WatchId) :=
  step.response?.bind (·.stream?)

def Request.move? (person : Person) (keyHash : Option Key.Hash) (now : Nat) :
    Request → Option RoomMove
  | .newPerson .. => none
  | .watchPerson _ lastMessage => some (.watch person.id person.player lastMessage keyHash)
  | .leave _ => some (.act (.leave person.player))
  | request => (request.action? person.player now).map .act

def Response.within (response : Response) (move : WatchId → RoomMove) : List LobbyMove :=
  match response with
  | .reply _ => []
  | .stream num watch => [.within num (move watch)]

namespace Registry

def serve (registry : Registry) : ServerStep → Registry
  | .route target keyHash remote now draw => (registry.route target keyHash remote now draw).2
  | .read response size => (registry.read response size).2.2
  | .takeNotice response => Link.takeNotice registry response
  | .close routed now => registry.close routed now
  | .check personTimeout shoutDuration now => registry.checkTimeouts personTimeout shoutDuration now

def serveAll (registry : Registry) (steps : List ServerStep) : Registry :=
  steps.foldl serve registry

theorem serveAll_append (registry : Registry) (first later : List ServerStep) :
    registry.serveAll (first ++ later) = (registry.serveAll first).serveAll later :=
  List.foldl_append

def sender? (registry : Registry) (request : Request) : Option Person :=
  request.person?.bind registry.person?

def answerMoves (registry : Registry) (request : Request) (keyHash : Option Key.Hash)
    (remote : Address) (now : Nat) (draw : Draw) : List LobbyMove :=
  match request with
  | .newPerson roomName name =>
      match (registry.join roomName name remote now draw).1 with
      | none => []
      | some person =>
          [.enter roomName draw.bag, .within person.room (.act (.join name)), .prune,
            .within person.room (.watch person.id person.player 0 keyHash)]
  | request =>
      match registry.sender? request with
      | none => []
      | some person => (request.move? person keyHash now).toList.map (.within person.room)

def removeMoves (registry : Registry) : List PersonId → List LobbyMove
  | [] => []
  | id :: rest =>
      (registry.person? id).toList.map (fun person =>
        .within person.room (.act (.leave person.player))) ++
        (registry.remove id).2.removeMoves rest

def moves (registry : Registry) : ServerStep → List LobbyMove
  | .route target keyHash remote now draw =>
      match Request.parse target with
      | .ok request => registry.answerMoves request keyHash remote now draw
      | .error _ => []
  | .read response size => response.within (.read · size)
  | .takeNotice response => response.within .takeNotice
  | .close routed _ => routed.response.within .unwatch
  | .check personTimeout shoutDuration now =>
      let silent := registry.timedOut personTimeout now
      registry.removeMoves silent ++
        (registry.removeAll silent).activeRooms.map fun num => .within num (.act (.expire now shoutDuration))

variable {registry : Registry}

theorem act_lobby (registry : Registry) (num : RoomNum) (action : Action) :
    (registry.act num action).lobby = registry.lobby.move (.within num (.act action)) :=
  Lobby.act_eq_move registry.lobby num action

theorem watch_lobby (registry : Registry) (person : Person) (lastMessage : Nat)
    (keyHash : Option Key.Hash) :
    (registry.watch person lastMessage keyHash).2.lobby =
      registry.lobby.move (.within person.room (.watch person.id person.player lastMessage keyHash)) := by
  unfold watch
  cases there : registry.lobby.room? person.room with
  | none => exact (Lobby.move_absent there _).symm
  | some room => exact Lobby.setRoom_eq_move there (.watch person.id person.player lastMessage keyHash)

theorem join_lobby {roomName name : String} {remote : Address} {now : Nat} {draw : Draw}
    {person : Person} {later : Registry}
    (joined : registry.join roomName name remote now draw = (some person, later)) :
    person.room = (registry.lobby.enter roomName draw.bag).1 ∧
      later.lobby = registry.lobby.moveAll
        [.enter roomName draw.bag, .within person.room (.act (.join name)), .prune] := by
  unfold join at joined
  dsimp only at joined
  split at joined
  next id player after notices lobby fresh acted =>
    obtain ⟨made, same⟩ := Prod.mk.inj joined
    obtain rfl := Option.some.inj made
    refine ⟨rfl, ?_⟩
    have entered := (Lobby.act_eq_move (registry.lobby.enter roomName draw.bag).2
      (registry.lobby.enter roomName draw.bag).1 (.join name)).symm
    rw [acted] at entered
    rw [← same]
    exact congrArg Lobby.prune entered.symm
  next => cases (Prod.mk.inj joined).1

theorem join_nobody {roomName name : String} {remote : Address} {now : Nat} {draw : Draw}
    (nobody : (registry.join roomName name remote now draw).1 = none) :
    registry.join roomName name remote now draw = (none, registry) := by
  unfold join at nobody ⊢
  dsimp only at nobody ⊢
  split at nobody
  next => cases nobody
  next => rfl

theorem remove_lobby (registry : Registry) (id : PersonId) :
    (registry.remove id).2.lobby = registry.lobby.moveAll
      ((registry.person? id).toList.map fun person => .within person.room (.act (.leave person.player))) := by
  unfold remove
  cases registry.person? id with
  | none => rfl
  | some person => exact act_lobby _ person.room (.leave person.player)

theorem answer_lobby (registry : Registry) (request : Request) (keyHash : Option Key.Hash)
    (remote : Address) (now : Nat) (draw : Draw) :
    (registry.answer request keyHash remote now draw).2.lobby =
      registry.lobby.moveAll (registry.answerMoves request keyHash remote now draw) := by
  have performs (request : Request) (id : PersonId) (asked : request.person? = some id)
      (plain : ∀ person, request.move? person keyHash now = (request.action? person.player now).map .act) :
      (registry.perform request id keyHash now).2.lobby = registry.lobby.moveAll
        (match registry.sender? request with
          | none => []
          | some person => (request.move? person keyHash now).toList.map (.within person.room)) := by
    rw [sender?, asked, Option.bind_some]
    have seen := person?_update registry id id fun person => { person with lastSeen := now }
    rw [if_pos rfl] at seen
    unfold perform touch
    cases known : registry.person? id with
    | none =>
      rw [known, Option.map_none] at seen
      simp only [seen]
      rfl
    | some person =>
      rw [known, Option.map_some] at seen
      simp only [seen, plain]
      cases request.action? person.player now with
      | none => rfl
      | some action => exact act_lobby _ person.room action
  cases request with
  | newPerson roomName name =>
    unfold answer answerMoves
    simp only
    cases joined : registry.join roomName name remote now draw with
    | mk made later =>
      cases made with
      | none =>
        rw [join_nobody (congrArg Prod.fst joined)] at joined
        obtain ⟨_, rfl⟩ := Prod.mk.inj joined
        rfl
      | some person =>
        simp only
        rw [watch_lobby]
        exact congrArg (Lobby.move · _) (join_lobby joined).2
  | watchPerson id lastMessage =>
    have counted := person?_attach registry id id now
    rw [if_pos rfl] at counted
    unfold answer answerMoves sender?
    simp only [Request.person?, Option.bind_some]
    cases known : registry.person? id with
    | none =>
      rw [known, Option.map_none] at counted
      simp only [counted]
      rfl
    | some person =>
      rw [known, Option.map_some] at counted
      simp only [counted]
      exact watch_lobby _ _ lastMessage keyHash
  | leave id =>
    have gone := remove_lobby registry id
    unfold answer answerMoves sender?
    simp only [Request.person?, Option.bind_some]
    cases known : registry.person? id with
    | none =>
      rw [known] at gone
      unfold remove
      simp only [known]
      rfl
    | some person =>
      rw [known] at gone
      unfold remove at gone ⊢
      simp only [known] at gone ⊢
      exact gone
  | sendMessage | startTyping | stopTyping | keepAlive | shout | turn | moveTile =>
    exact performs _ _ rfl fun _ => rfl

theorem mem_removeMoves (registry : Registry) (ids : List PersonId) :
    ∀ move ∈ registry.removeMoves ids,
      ∃ person : Person, move = .within person.room (.act (.leave person.player)) := by
  induction ids generalizing registry with
  | nil => exact List.forall_mem_nil _
  | cons id rest ih =>
    intro move member
    rcases List.mem_append.1 member with first | later
    · obtain ⟨person, _, rfl⟩ := List.mem_map.1 first
      exact ⟨person, rfl⟩
    · exact ih _ move later

theorem removeAll_lobby (registry : Registry) (ids : List PersonId) :
    (registry.removeAll ids).lobby = registry.lobby.moveAll (registry.removeMoves ids) := by
  induction ids generalizing registry with
  | nil => rfl
  | cons id rest ih =>
    rw [removeMoves, Lobby.moveAll_append, ← remove_lobby]
    exact ih (registry.remove id).2

theorem actAll_lobby (rooms : List RoomNum) (action : Action) (registry : Registry) :
    (rooms.foldl (fun registry num => registry.act num action) registry).lobby =
      registry.lobby.moveAll (rooms.map fun num => .within num (.act action)) := by
  induction rooms generalizing registry with
  | nil => rfl
  | cons num rest ih =>
    rw [List.map_cons, Lobby.moveAll_cons, ← act_lobby]
    exact ih (registry.act num action)

theorem serve_request {target : String} {request : Request} (parsed : Request.parse target = .ok request)
    (keyHash : Option Key.Hash) (remote : Address) (now : Nat) (draw : Draw) :
    registry.serve (.route target keyHash remote now draw) =
      (registry.answer request keyHash remote now draw).2 := by
  rw [serve, route, parsed]

theorem moves_request {target : String} {request : Request} (parsed : Request.parse target = .ok request)
    (keyHash : Option Key.Hash) (remote : Address) (now : Nat) (draw : Draw) :
    registry.moves (.route target keyHash remote now draw) =
      registry.answerMoves request keyHash remote now draw := by
  rw [moves, parsed]

theorem serve_no_request (registry : Registry) {target : String} {cause : RequestError}
    (failed : Request.parse target = .error cause) (keyHash : Option Key.Hash) (remote : Address) (now : Nat)
    (draw : Draw) :
    registry.serve (.route target keyHash remote now draw) = registry ∧
      registry.moves (.route target keyHash remote now draw) = [] := by
  rw [serve, route, moves, failed]
  cases cause <;> exact ⟨rfl, rfl⟩

/-- Whatever a server does, its rooms change by the moves told beforehand. -/
theorem serve_lobby (registry : Registry) (step : ServerStep) :
    (registry.serve step).lobby = registry.lobby.moveAll (registry.moves step) := by
  -- A response that is a stream is one move in its room, if the room is there.
  have tends {num : RoomNum} (move : RoomMove) {after : Registry}
      (absent : registry.lobby.room? num = none → after.lobby = registry.lobby)
      (there : ∀ room, registry.lobby.room? num = some room →
        after.lobby = registry.lobby.setRoom num (room.move move)) :
      after.lobby = registry.lobby.moveAll [.within num move] := by
    cases found : registry.lobby.room? num with
    | none => exact (absent found).trans (Lobby.move_absent found move).symm
    | some room => exact (there room found).trans (Lobby.setRoom_eq_move found move)
  cases step with
  | route target keyHash remote now draw =>
    cases parsed : Request.parse target with
    | ok request =>
      rw [serve_request parsed, moves_request parsed]
      exact answer_lobby registry request keyHash remote now draw
    | error cause =>
      obtain ⟨same, none⟩ := registry.serve_no_request parsed keyHash remote now draw
      rw [same, none]
      rfl
  | read response size =>
    cases response with
    | reply reply => rfl
    | stream num watch =>
      refine tends (.read watch size) ?_ ?_
      · intro absent
        simp only [serve, Registry.read, absent]
      · intro room there
        simp only [serve, Registry.read, there, Room.move]
  | takeNotice response =>
    cases response with
    | reply reply => rfl
    | stream num watch =>
      refine tends (.takeNotice watch) ?_ ?_
      · intro absent
        simp only [serve, Link.takeNotice, absent]
      · intro room there
        simp only [serve, Link.takeNotice, there, Room.move]
  | close routed now =>
    obtain ⟨response, watching⟩ := routed
    cases response with
    | reply reply => cases watching <;> rfl
    | stream num watch =>
      refine tends (.unwatch watch) ?_ ?_
      · intro absent
        cases watching <;> simp only [serve, close, detach, absent]
      · intro room there
        cases watching <;> simp only [serve, close, detach, there, Room.move]
  | check personTimeout shoutDuration now =>
    rw [moves, Lobby.moveAll_append, ← removeAll_lobby]
    exact actAll_lobby _ _ _

/-- What holds of a new room and is kept by what happens in a room holds of all rooms of a
server, whatever it does. -/
theorem everywhere_serveAll {property : Room → Prop} (made : ∀ bag, property (.ofBag bag))
    (kept : ∀ {room} move, property room → property (room.move move)) (steps : List ServerStep) :
    (serveAll {} steps).lobby.Everywhere property := by
  have run (registry : Registry) (holds : registry.lobby.Everywhere property) :
      (registry.serveAll steps).lobby.Everywhere property := by
    induction steps generalizing registry with
    | nil => exact holds
    | cons step rest ih =>
      apply ih
      rw [serve_lobby]
      exact holds.moveAll made kept (registry.moves step)
  exact run {} nofun

theorem same_watch (registry : Registry) (person : Person) (lastMessage : Nat) (keyHash : Option Key.Hash) :
    registry.Same (registry.watch person lastMessage keyHash).2 ∧
      (registry.watch person lastMessage keyHash).2.persons = registry.persons := by
  unfold watch
  cases there : registry.lobby.room? person.room with
  | none => exact ⟨Same.refl registry, rfl⟩
  | some room => exact ⟨same_setRoom there rfl, rfl⟩

theorem same_read (registry : Registry) (response : Response) (size : Nat) :
    registry.Same (registry.read response size).2.2 := by
  cases response with
  | reply reply => exact Same.refl registry
  | stream num watch =>
    unfold Registry.read
    simp only
    split
    next => exact Same.refl registry
    next room there => exact same_setRoom there (Room.conversation_read room watch size)

theorem same_takeNotice (registry : Registry) (response : Response) :
    registry.Same (Link.takeNotice registry response) := by
  cases response with
  | reply reply => exact Same.refl registry
  | stream num watch =>
    unfold Link.takeNotice
    simp only
    split
    next => exact Same.refl registry
    next room there => exact same_setRoom there rfl

theorem same_close (registry : Registry) (routed : Routed) (now : Nat) :
    registry.Same (registry.close routed now) := by
  obtain ⟨response, watching⟩ := routed
  cases watching with
  | none => exact (close_unwatched registry response now).1
  | some id => exact (same_detach registry id now).trans (close_unwatched (registry.detach id now) response now).1

theorem Seated.serve (seated : registry.Seated) (step : ServerStep) : (registry.serve step).Seated := by
  cases step with
  | route target keyHash remote now draw =>
    cases parsed : Request.parse target with
    | ok request =>
      rw [serve_request parsed]
      exact (serves_answer seated request keyHash remote now draw).seated
    | error cause =>
      rw [(registry.serve_no_request parsed keyHash remote now draw).1]
      exact seated
  | read response size => exact seated.same (same_read registry response size)
  | takeNotice response => exact seated.same (same_takeNotice registry response)
  | close routed now => exact seated.same (same_close registry routed now)
  | check personTimeout shoutDuration now => exact seated.checkTimeouts personTimeout shoutDuration now

theorem Seated.serveAll (seated : registry.Seated) (steps : List ServerStep) :
    (registry.serveAll steps).Seated := by
  induction steps generalizing registry with
  | nil => exact seated
  | cons step rest ih => exact ih (seated.serve step)

end Registry

end TileRoom
