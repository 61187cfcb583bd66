import TileRoom.Proofs.Moving

/-! Who comes together in a room. A server is kept with a book of all who joined it. Those in
one room came under one name, they are numbered as they came, and as long as the room of a
name can be joined all who come under the name come to it. What a person asks for shows in
the record and the room of that person only. -/

namespace TileRoom

namespace Lobby

def headcount (lobby : Lobby) (num : RoomNum) : Nat :=
  (lobby.room? num).elim 0 (·.conversation.players.length)

theorem enter_found_or_new (lobby : Lobby) (name : String) (bag : List Char) :
    lobby.pending.find? name = some (lobby.enter name bag).1 ∧ lobby.isOpen (lobby.enter name bag).1 = true ∧
        (lobby.enter name bag).2 = lobby ∨
      (∀ num, lobby.pending.find? name = some num → lobby.isOpen num = false) ∧
        (lobby.enter name bag).1 = lobby.rooms.length ∧
        (lobby.enter name bag).2 =
          { rooms := lobby.rooms ++ [.ofBag bag], pending := lobby.pending.put name lobby.rooms.length } := by
  unfold enter
  split
  next num found =>
    obtain ⟨known, free⟩ := Option.filter_eq_some_iff.1 found
    exact Or.inl ⟨known, free, rfl⟩
  next none =>
    refine Or.inr ⟨?_, rfl, rfl⟩
    intro num known
    rw [known, Option.filter_eq_none_iff] at none
    exact Bool.eq_false_iff.2 (none num rfl)

theorem room?_enter {lobby : Lobby} {name : String} {bag : List Char} {num : RoomNum}
    (other : (lobby.enter name bag).1 ≠ num) : (lobby.enter name bag).2.room? num = lobby.room? num := by
  rcases lobby.enter_found_or_new name bag with ⟨_, _, same⟩ | ⟨_, new, grown⟩
  · rw [same]
  · rw [new] at other
    rw [grown, room?, room?, List.getElem?_append]
    split
    next => rfl
    next outside =>
      have beyond : lobby.rooms.length < num := Nat.lt_of_le_of_ne (Nat.le_of_not_lt outside) other
      rw [List.getElem?_eq_none (Nat.le_of_not_lt outside), List.getElem?_eq_none]
      exact Nat.sub_pos_of_lt beyond

theorem pending_enter (lobby : Lobby) (name other : String) (bag : List Char) :
    (lobby.enter name bag).2.pending.find? other =
      if name = other then some (lobby.enter name bag).1 else lobby.pending.find? other := by
  rcases lobby.enter_found_or_new name bag with ⟨known, _, same⟩ | ⟨_, new, grown⟩
  · rw [same]
    by_cases here : name = other
    · rw [if_pos here, ← here, known]
    · rw [if_neg here]
  · rw [grown, new]
    exact Table.find?_put ..

theorem headcount_enter (lobby : Lobby) (name : String) (bag : List Char) (num : RoomNum) :
    (lobby.enter name bag).2.headcount num = lobby.headcount num := by
  by_cases here : (lobby.enter name bag).1 = num
  · rcases lobby.enter_found_or_new name bag with ⟨_, _, same⟩ | ⟨_, new, grown⟩
    · rw [same]
    · have absent : lobby.room? num = none := by
        rw [← here, new]
        exact List.getElem?_eq_none (Nat.le_refl _)
      have there : (lobby.enter name bag).2.room? num = some (.ofBag bag) := by
        rw [← here, new, grown]
        exact List.getElem?_concat_length
      rw [headcount, headcount, absent, there]
      rfl
  · rw [headcount, room?_enter here, headcount]

theorem pending_prune (lobby : Lobby) (name : String) :
    lobby.prune.pending.find? name = (lobby.pending.find? name).filter lobby.isOpen :=
  Table.find?_keep ..

end Lobby

/-- Whether a move leaves the number of players in every room as it is. -/
def LobbyMove.Plain (move : LobbyMove) : Prop :=
  ∃ num inner, move = .within num inner ∧ ∀ name, inner ≠ .act (.join name)

/-- Whether a move shows in one room at most. -/
def LobbyMove.Stays (num : RoomNum) (move : LobbyMove) : Prop :=
  ∃ inner, move = .within num inner

namespace Lobby

variable {lobby : Lobby}

theorem room?_moveAll {num other : RoomNum} (apart : num ≠ other) {moves : List LobbyMove}
    (stay : ∀ move ∈ moves, move.Stays num) : (lobby.moveAll moves).room? other = lobby.room? other := by
  induction moves generalizing lobby with
  | nil => rfl
  | cons move rest ih =>
    obtain ⟨inner, rfl⟩ := stay move List.mem_cons_self
    rw [moveAll_cons, ih fun move member => stay move (List.mem_cons_of_mem _ member), room?_within, if_neg apart]

theorem pending_moveAll {moves : List LobbyMove} (plain : ∀ move ∈ moves, ∃ num, move.Stays num) :
    (lobby.moveAll moves).pending = lobby.pending := by
  induction moves generalizing lobby with
  | nil => rfl
  | cons move rest ih =>
    obtain ⟨num, inner, rfl⟩ := plain move List.mem_cons_self
    rw [moveAll_cons, ih fun move member => plain move (List.mem_cons_of_mem _ member), pending_within]

theorem headcount_within (lobby : Lobby) (num other : RoomNum) {move : RoomMove}
    (plain : ∀ name, move ≠ .act (.join name)) :
    (lobby.move (.within num move)).headcount other = lobby.headcount other := by
  rw [headcount, headcount, room?_within]
  split
  next =>
    cases lobby.room? other with
    | none => rfl
    | some room =>
      change (room.move move).conversation.players.length = room.conversation.players.length
      rw [Room.conversation_move]
      cases move with
      | act action => exact Conversation.players_length_act (fun name same => plain name (same ▸ rfl)) _
      | watch | unwatch | read | takeNotice => rfl
  next => rfl

theorem isOpen_within (lobby : Lobby) (num other : RoomNum) (move : RoomMove)
    (free : (lobby.move (.within num move)).isOpen other = true) : lobby.isOpen other = true := by
  rw [isOpen, room?_within] at free
  rw [isOpen]
  split at free
  next =>
    cases there : lobby.room? other with
    | none =>
      rw [there] at free
      cases free
    | some room =>
      rw [there] at free
      change (room.move move).conversation.isOpen = true at free
      change room.conversation.isOpen = true
      rw [Room.conversation_move] at free
      cases asked : move.action? with
      | none => rwa [asked] at free
      | some action =>
        rw [asked] at free
        by_contra closed
        rw [Bool.not_eq_true] at closed
        exact absurd free (Bool.eq_false_iff.1 (Conversation.closed_act closed action))
  next => exact free

theorem headcount_moveAll {moves : List LobbyMove} (plain : ∀ move ∈ moves, move.Plain) (num : RoomNum) :
    (lobby.moveAll moves).headcount num = lobby.headcount num := by
  induction moves generalizing lobby with
  | nil => rfl
  | cons move rest ih =>
    obtain ⟨home, inner, rfl, other⟩ := plain move List.mem_cons_self
    rw [moveAll_cons, ih fun move member => plain move (List.mem_cons_of_mem _ member),
      headcount_within lobby home num other]

theorem isOpen_moveAll {moves : List LobbyMove} (plain : ∀ move ∈ moves, move.Plain) {num : RoomNum}
    (free : (lobby.moveAll moves).isOpen num = true) : lobby.isOpen num = true := by
  induction moves generalizing lobby with
  | nil => exact free
  | cons move rest ih =>
    obtain ⟨home, inner, rfl, _⟩ := plain move List.mem_cons_self
    rw [moveAll_cons] at free
    exact isOpen_within lobby home num inner
      (ih (fun move member => plain move (List.mem_cons_of_mem _ member)) free)

end Lobby

namespace Registry

variable {registry later : Registry} {id : PersonId} {roomName name : String} {remote : Address} {now : Nat}
  {draw : Draw} {person : Person}

structure Joins (registry : Registry) (roomName : String) (bag : List Char) (person : Person)
    (later : Registry) : Prop where
  room : person.room = (registry.lobby.enter roomName bag).1
  player : person.player = registry.lobby.headcount person.room
  fresh : registry.person? person.id = none
  headcount : ∀ num, later.lobby.headcount num =
    registry.lobby.headcount num + if person.room = num then 1 else 0
  others : ∀ num, person.room ≠ num → later.lobby.room? num = registry.lobby.room? num
  pending : ∀ other, later.lobby.pending.find? other =
    if roomName = other then (some person.room).filter later.lobby.isOpen
    else (registry.lobby.pending.find? other).filter later.lobby.isOpen
  persons : ∀ other, later.person? other = if person.id = other then some person else registry.person? other

theorem joins_of_join (joined : registry.join roomName name remote now draw = (some person, later)) :
    registry.Joins roomName draw.bag person later := by
  obtain ⟨home, moved⟩ := join_lobby joined
  obtain ⟨room, there, free⟩ := enter_open registry.lobby roomName draw.bag
  obtain ⟨longer, number⟩ := Conversation.players_join free name
  rw [← home] at there
  have before : registry.lobby.headcount person.room = room.conversation.players.length := by
    rw [← Lobby.headcount_enter registry.lobby roomName draw.bag, Lobby.headcount, there]
    rfl
  -- The record of the newcomer is read off the last step of the join.
  have made : person.player = room.conversation.players.length ∧ registry.person? person.id = none ∧
      later.persons = registry.persons.put person.id person := by
    unfold join at joined
    dsimp only at joined
    split at joined
    next id player after notices lobby drawn acted =>
      obtain ⟨made, same⟩ := Prod.mk.inj joined
      obtain rfl := Option.some.inj made
      obtain ⟨found, here, outcome, _⟩ := Lobby.act_some acted
      obtain rfl := Option.some.inj (there.symm.trans here)
      have answer := (congrArg Outcome.answer outcome).trans (congrArg Answer.number number)
      have unknown := List.find?_some drawn
      rw [Table.contains, Bool.not_eq_true', Option.isSome_eq_false_iff, Option.isNone_iff_eq_none] at unknown
      exact ⟨Option.some.inj (Answer.number.inj answer), unknown, (congrArg persons same).symm⟩
    next => cases (Prod.mk.inj joined).1
  have shown (num : RoomNum) : later.lobby.room? num =
      if person.room = num then ((registry.lobby.enter roomName draw.bag).2.room? num).map
        (·.move (.act (.join name))) else (registry.lobby.enter roomName draw.bag).2.room? num := by
    rw [moved]
    exact Lobby.room?_within (registry.lobby.enter roomName draw.bag).2 person.room num (.act (.join name))
  constructor
  case room => exact home
  case player => exact made.1.trans before.symm
  case fresh => exact made.2.1
  case headcount =>
    intro num
    rw [Lobby.headcount, shown]
    by_cases here : person.room = num
    · rw [if_pos here, if_pos here, ← here, there, before]
      change ((room.act (.join name)).2.conversation).players.length = _
      rw [Room.conversation_act]
      exact (congrArg List.length longer).trans List.length_append
    · rw [if_neg here, if_neg here, Nat.add_zero, ← Lobby.headcount_enter registry.lobby roomName draw.bag]
      rfl
  case others =>
    intro num other
    rw [shown, if_neg other]
    exact Lobby.room?_enter (home ▸ other)
  case pending =>
    intro other
    have pruned := Lobby.pending_prune ((registry.lobby.enter roomName draw.bag).2.move
      (.within person.room (.act (.join name)))) other
    rw [Lobby.pending_within, Lobby.pending_enter, ← home] at pruned
    rw [moved]
    refine Eq.trans pruned ?_
    split <;> rfl
  case persons =>
    intro other
    rw [person?, made.2.2]
    exact Table.find?_put ..

end Registry

/-- Someone who joined: under which name of a room, and as which player of which room. -/
structure Joining where
  id : PersonId
  name : String
  seat : Seat

namespace Registry

variable {registry later : Registry} {step : ServerStep} {id : PersonId}

def newcomer? (registry : Registry) (request : Request) (remote : Address) (now : Nat) (draw : Draw) :
    Option Joining :=
  match request with
  | .newPerson roomName name =>
      (registry.join roomName name remote now draw).1.map fun person => ⟨person.id, roomName, person.seat⟩
  | _ => none

def joining? (registry : Registry) : ServerStep → Option Joining
  | .route target _ remote now draw =>
      (Request.parse target).toOption.bind (registry.newcomer? · remote now draw)
  | .read .. | .takeNotice _ | .close .. | .check .. => none

theorem joining?_request {target : String} {request : Request} (parsed : Request.parse target = .ok request)
    (keyHash : Option Key.Hash) (remote : Address) (now : Nat) (draw : Draw) :
    registry.joining? (.route target keyHash remote now draw) = registry.newcomer? request remote now draw := by
  rw [joining?, parsed]
  rfl

theorem answerMoves_person (registry : Registry) {request : Request} (asked : request.person? = some id)
    (keyHash : Option Key.Hash) (remote : Address) (now : Nat) (draw : Draw) :
    ∀ move ∈ registry.answerMoves request keyHash remote now draw,
      ∃ person inner, registry.person? id = some person ∧ move = .within person.room inner ∧
        ∀ name, inner ≠ .act (.join name) := by
  unfold answerMoves
  split
  next => cases asked
  next =>
    rw [sender?, asked, Option.bind_some]
    cases registry.person? id with
    | none => exact List.forall_mem_nil _
    | some person =>
      intro move member
      obtain ⟨inner, chosen, rfl⟩ := List.mem_map.1 member
      rw [Option.mem_toList] at chosen
      refine ⟨person, inner, rfl, rfl, ?_⟩
      intro name same
      rw [same] at chosen
      cases request <;> cases chosen

theorem moves_plain (nobody : registry.joining? step = none) : ∀ move ∈ registry.moves step, move.Plain := by
  have tends (response : Response) (inner : WatchId → RoomMove)
      (other : ∀ watch name, inner watch ≠ .act (.join name)) : ∀ move ∈ response.within inner, move.Plain := by
    intro move member
    cases response with
    | reply => cases member
    | stream num watch =>
      obtain rfl := List.mem_singleton.1 member
      exact ⟨num, _, rfl, other watch⟩
  cases step with
  | route target keyHash remote now draw =>
    cases parsed : Request.parse target with
    | error cause =>
      rw [(registry.serve_no_request parsed keyHash remote now draw).2]
      exact List.forall_mem_nil _
    | ok request =>
      rw [moves_request parsed]
      rw [joining?_request parsed] at nobody
      cases asked : request.person? with
      | none =>
        cases request with
        | newPerson roomName name =>
          rw [newcomer?, Option.map_eq_none_iff] at nobody
          rw [answerMoves, nobody]
          exact List.forall_mem_nil _
        | watchPerson | sendMessage | startTyping | stopTyping | keepAlive | leave | shout | turn | moveTile =>
          cases asked
      | some id =>
        intro move member
        obtain ⟨person, inner, _, same, other⟩ := registry.answerMoves_person asked keyHash remote now draw move member
        exact ⟨person.room, inner, same, other⟩
  | read response size => exact tends response _ (by simp)
  | takeNotice response => exact tends response _ (by simp)
  | close routed now => exact tends routed.response _ (by simp)
  | check personTimeout shoutDuration now =>
    intro move member
    rcases List.mem_append.1 member with first | last
    · obtain ⟨person, rfl⟩ := registry.mem_removeMoves _ move first
      exact ⟨person.room, _, rfl, by simp⟩
    · obtain ⟨num, _, rfl⟩ := List.mem_map.1 last
      exact ⟨num, _, rfl, by simp⟩

theorem seat?_answer {request : Request} {other : PersonId} (asked : request.person? = some other)
    (keyHash : Option Key.Hash) (remote : Address) (now : Nat) (draw : Draw) {seat : Seat}
    (held : (registry.answer request keyHash remote now draw).2.seat? id = some seat) :
    registry.seat? id = some seat := by
  have performs (request : Request) (held : (registry.perform request other keyHash now).2.seat? id = some seat) :
      registry.seat? id = some seat := by
    have touched := (same_touch registry other now).seats id
    unfold perform at held
    split at held
    next later served =>
      rw [served] at touched
      exact touched.symm.trans held
    next person later served =>
      rw [served] at touched
      split at held <;> exact touched.symm.trans held
  cases request with
  | newPerson => cases asked
  | watchPerson known lastMessage =>
    obtain rfl := Option.some.inj asked
    have attached := same_attach registry known now
    unfold answer at held
    simp only at held
    split at held
    next person there =>
      have watched := (same_watch (registry.attach known now).2 person lastMessage keyHash).1
      exact ((attached.trans watched).seats id).symm.trans held
    next => exact (attached.seats id).symm.trans held
  | leave known =>
    obtain rfl := Option.some.inj asked
    have removed : (registry.remove known).2.seat? id = some seat := by
      unfold answer at held
      simp only at held
      split at held
      all_goals
        rename_i served
        rw [served]
        exact held
    rw [seat?_remove] at removed
    split at removed
    next => cases removed
    next => exact removed
  | sendMessage | startTyping | stopTyping | keepAlive | shout | turn | moveTile =>
    obtain rfl := Option.some.inj asked
    exact performs _ held

theorem seat?_serve (nobody : registry.joining? step = none) {seat : Seat}
    (held : (registry.serve step).seat? id = some seat) : registry.seat? id = some seat := by
  cases step with
  | route target keyHash remote now draw =>
    cases parsed : Request.parse target with
    | error cause => rwa [(registry.serve_no_request parsed keyHash remote now draw).1] at held
    | ok request =>
      rw [serve_request parsed] at held
      rw [joining?_request parsed] at nobody
      cases asked : request.person? with
      | none =>
        cases request with
        | newPerson roomName name =>
          rw [newcomer?, Option.map_eq_none_iff] at nobody
          rwa [answer, join_nobody nobody] at held
        | watchPerson | sendMessage | startTyping | stopTyping | keepAlive | leave | shout | turn | moveTile =>
          cases asked
      | some other => exact seat?_answer asked keyHash remote now draw held
  | read response size => exact ((same_read registry response size).seats id).symm.trans held
  | takeNotice response => exact ((same_takeNotice registry response).seats id).symm.trans held
  | close routed now => exact ((same_close registry routed now).seats id).symm.trans held
  | check personTimeout shoutDuration now =>
    rw [serve, seat?, checkTimeouts, person?_act_all] at held
    have removed := seat?_removeAll registry (registry.timedOut personTimeout now) id
    change (registry.removeAll (registry.timedOut personTimeout now)).seat? id = some seat at held
    rw [removed] at held
    split at held
    next => cases held
    next => exact held

theorem serve_joining {joining : Joining} (joined : registry.joining? step = some joining) :
    ∃ bag person later keyHash now, registry.Joins joining.name bag person later ∧
      joining = ⟨person.id, joining.name, person.seat⟩ ∧
      registry.serve step = ((later.attach person.id now).2.watch person 0 keyHash).2 := by
  cases step with
  | route target keyHash remote now draw =>
    cases parsed : Request.parse target with
    | error cause =>
      rw [joining?, parsed] at joined
      cases joined
    | ok request =>
      rw [joining?_request parsed] at joined
      cases request with
      | newPerson roomName name =>
        obtain ⟨person, made, rfl⟩ := Option.map_eq_some_iff.1 joined
        have came : registry.join roomName name remote now draw =
            (some person, (registry.join roomName name remote now draw).2) := Prod.ext made rfl
        refine ⟨draw.bag, person, _, keyHash, now, joins_of_join came, rfl, ?_⟩
        rw [serve_request parsed, answer, came]
      | watchPerson | sendMessage | startTyping | stopTyping | keepAlive | leave | shout | turn | moveTile =>
        cases joined
  | read | takeNotice | close | check => cases joined

theorem attach_watch (registry : Registry) (person : Person) (keyHash : Option Key.Hash) (now : Nat) :
    let after := ((registry.attach person.id now).2.watch person 0 keyHash).2
    after.lobby = registry.lobby.move (.within person.room (.watch person.id person.player 0 keyHash)) ∧
      (∀ id, after.seat? id = registry.seat? id) ∧
      ∀ id, person.id ≠ id → after.person? id = registry.person? id := by
  obtain ⟨same, persons⟩ := same_watch (registry.attach person.id now).2 person 0 keyHash
  refine ⟨watch_lobby _ person 0 keyHash, ?_, ?_⟩
  · exact fun id => ((same_attach registry person.id now).trans same).seats id
  · intro id other
    rw [person?, persons]
    exact (person?_attach registry person.id id now).trans (if_neg other)

end Registry

/-- A server and all who joined it, in the order in which they came. -/
structure Guestbook where
  registry : Registry := {}
  joinings : List Joining := []

namespace Guestbook

def lastUnder? (book : Guestbook) (name : String) : Option Joining :=
  (book.joinings.filter (·.name = name)).getLast?

/-- How a person came; an id may be given out again once its person is gone. -/
def joiningOf? (book : Guestbook) (id : PersonId) : Option Joining :=
  (book.joinings.filter (·.id = id)).getLast?

def numbersIn (book : Guestbook) (num : RoomNum) : List Nat :=
  (book.joinings.filter (·.seat.1 = num)).map (·.seat.2)

def step (book : Guestbook) (step : ServerStep) : Guestbook where
  registry := book.registry.serve step
  joinings := book.joinings ++ (book.registry.joining? step).toList

def run (book : Guestbook) (steps : List ServerStep) : Guestbook :=
  steps.foldl step book

/-- Who came to a room came under one name and is numbered by order, a name that can be looked
up stands for the room of the last who came under it, and every person came. -/
structure Grouped (book : Guestbook) : Prop where
  named : ∀ one ∈ book.joinings, ∀ other ∈ book.joinings, one.seat.1 = other.seat.1 → one.name = other.name
  numbered : ∀ num, book.numbersIn num = List.range (book.registry.lobby.headcount num)
  pending : ∀ name num, book.registry.lobby.pending.find? name = some num →
    ∃ joining ∈ book.joinings, joining.name = name ∧ joining.seat.1 = num
  current : ∀ name last, book.lastUnder? name = some last → book.registry.lobby.isOpen last.seat.1 = true →
    book.registry.lobby.pending.find? name = some last.seat.1
  persons : ∀ id seat, book.registry.seat? id = some seat →
    ∃ joining, book.joiningOf? id = some joining ∧ joining.seat = seat

variable {book : Guestbook} {after : Registry}

theorem grouped_empty : ({} : Guestbook).Grouped := by
  refine ⟨nofun, ?_, nofun, nofun, nofun⟩
  intro num
  rfl

theorem Grouped.onward (grouped : book.Grouped)
    (headcount : ∀ num, after.lobby.headcount num = book.registry.lobby.headcount num)
    (pending : after.lobby.pending = book.registry.lobby.pending)
    (free : ∀ num, after.lobby.isOpen num = true → book.registry.lobby.isOpen num = true)
    (seats : ∀ id seat, after.seat? id = some seat → book.registry.seat? id = some seat) :
    Grouped { book with registry := after } where
  named := grouped.named
  numbered num := by
    rw [headcount]
    exact grouped.numbered num
  pending := by
    rw [pending]
    exact grouped.pending
  current name last latest opened := by
    rw [pending]
    exact grouped.current name last latest (free _ opened)
  persons id seat held := grouped.persons id seat (seats id seat held)

theorem getLast?_filter_concat {α : Type} (items : List α) (item : α) (test : α → Bool) :
    ((items ++ [item]).filter test).getLast? =
      if test item then some item else (items.filter test).getLast? := by
  rw [List.filter_append, List.filter_cons, List.filter_nil]
  split
  next => exact List.getLast?_concat
  next => rw [List.append_nil]

theorem Grouped.headcount_pos (grouped : book.Grouped) {joining : Joining} (member : joining ∈ book.joinings) :
    0 < book.registry.lobby.headcount joining.seat.1 := by
  have inside : joining.seat.2 ∈ book.numbersIn joining.seat.1 :=
    List.mem_map.2 ⟨joining, List.mem_filter.2 ⟨member, decide_eq_true rfl⟩, rfl⟩
  rw [grouped.numbered, List.mem_range] at inside
  exact Nat.lt_of_le_of_lt (Nat.zero_le _) inside

theorem Grouped.join (grouped : book.Grouped) {roomName : String} {bag : List Char} {person : Person}
    {later : Registry} (joins : book.registry.Joins roomName bag person later) :
    Grouped ⟨later, book.joinings ++ [⟨person.id, roomName, person.seat⟩]⟩ := by
  -- Whoever came to this room before came under this name.
  have alike (joining : Joining) (member : joining ∈ book.joinings) (here : joining.seat.1 = person.room) :
      joining.name = roomName := by
    rw [joins.room] at here
    rcases book.registry.lobby.enter_found_or_new roomName bag with ⟨known, _, _⟩ | ⟨_, new, _⟩
    · obtain ⟨other, also, named, there⟩ := grouped.pending roomName _ known
      rw [← named]
      exact grouped.named joining member other also (here.trans there.symm)
    · have someone := grouped.headcount_pos member
      rw [here, new, Lobby.headcount, Lobby.room?, List.getElem?_eq_none (Nat.le_refl _)] at someone
      cases someone
  constructor
  case named =>
    intro one first other second same
    rcases List.mem_append.1 first with old | new
    · rcases List.mem_append.1 second with also | newer
      · exact grouped.named one old other also same
      · obtain rfl := List.mem_singleton.1 newer
        exact alike one old same
    · obtain rfl := List.mem_singleton.1 new
      rcases List.mem_append.1 second with also | newer
      · exact (alike other also same.symm).symm
      · obtain rfl := List.mem_singleton.1 newer
        rfl
  case numbered =>
    intro num
    have before := grouped.numbered num
    rw [joins.headcount]
    unfold numbersIn at before ⊢
    rw [List.filter_append, List.map_append, before, List.filter_cons, List.filter_nil]
    by_cases here : person.room = num
    · rw [if_pos here, List.range_succ]
      have player : person.player = book.registry.lobby.headcount num := here ▸ joins.player
      simp only [Person.seat, here, player, decide_true, if_true, List.map_singleton]
    · simp only [Person.seat, here, decide_false, if_false, Nat.add_zero, List.map_nil, List.append_nil,
        Bool.false_eq_true]
  case pending =>
    intro name num known
    rw [joins.pending] at known
    split at known
    next same =>
      obtain ⟨there, _⟩ := Option.filter_eq_some_iff.1 known
      exact ⟨_, List.mem_append_right _ (List.mem_singleton_self _), same, Option.some.inj there⟩
    next =>
      obtain ⟨there, _⟩ := Option.filter_eq_some_iff.1 known
      obtain ⟨joining, member, both⟩ := grouped.pending name num there
      exact ⟨joining, List.mem_append_left _ member, both⟩
  case current =>
    intro name last latest opened
    rw [lastUnder?, getLast?_filter_concat] at latest
    rw [joins.pending]
    by_cases same : roomName = name
    · rw [if_pos (decide_eq_true same)] at latest
      obtain rfl := Option.some.inj latest
      rw [if_pos same, Option.filter_eq_some_iff]
      exact ⟨rfl, opened⟩
    · rw [if_neg (fun here => same (of_decide_eq_true here))] at latest
      have member : last ∈ book.joinings := List.mem_of_mem_filter (List.mem_of_getLast? latest)
      have apart : person.room ≠ last.seat.1 := by
        intro here
        have named : last.name = name := of_decide_eq_true (List.mem_filter.1 (List.mem_of_getLast? latest)).2
        exact same ((alike last member here.symm).symm.trans named)
      have before : book.registry.lobby.isOpen last.seat.1 = true := by
        rwa [Lobby.isOpen, joins.others _ apart] at opened
      rw [if_neg same, grouped.current name last latest before, Option.filter_eq_some_iff]
      exact ⟨rfl, opened⟩
  case persons =>
    intro id seat held
    rw [joiningOf?, getLast?_filter_concat]
    rw [Registry.seat?, joins.persons] at held
    by_cases here : person.id = id
    · rw [if_pos here] at held
      rw [if_pos (decide_eq_true here)]
      exact ⟨_, rfl, Option.some.inj held⟩
    · rw [if_neg here] at held
      rw [if_neg fun same => here (of_decide_eq_true same)]
      exact grouped.persons id seat held

theorem Grouped.step (grouped : book.Grouped) (step : ServerStep) : (book.step step).Grouped := by
  unfold Guestbook.step
  cases joined : book.registry.joining? step with
  | none =>
    have plain := Registry.moves_plain joined
    have moved := book.registry.serve_lobby step
    rw [Option.toList_none, List.append_nil]
    apply grouped.onward
    · intro num
      rw [moved, Lobby.headcount_moveAll plain]
    · rw [moved, Lobby.pending_moveAll fun move member =>
        (plain move member).elim fun num inner => ⟨num, inner.imp fun _ both => both.1⟩]
    · intro num opened
      rw [moved] at opened
      exact Lobby.isOpen_moveAll plain opened
    · exact fun id seat held => Registry.seat?_serve joined held
  | some joining =>
    obtain ⟨bag, person, later, keyHash, now, joins, same, served⟩ := Registry.serve_joining joined
    obtain ⟨moved, seats, _⟩ := later.attach_watch person keyHash now
    have came := grouped.join joins
    rw [← same] at came
    rw [served, Option.toList_some]
    apply came.onward
    · intro num
      have plain (name : String) : RoomMove.watch person.id person.player 0 keyHash ≠ .act (.join name) := by
        simp
      rw [moved, Lobby.headcount_within later.lobby person.room num plain]
    · rw [moved, Lobby.pending_within]
    · intro num opened
      rw [moved] at opened
      exact Lobby.isOpen_within later.lobby person.room num _ opened
    · intro id seat held
      rwa [seats] at held

theorem Grouped.run (grouped : book.Grouped) (steps : List ServerStep) : (book.run steps).Grouped := by
  induction steps generalizing book with
  | nil => exact grouped
  | cons step rest ih => exact ih (grouped.step step)

theorem Grouped.joins_current (grouped : book.Grouped) {step : ServerStep} {joining last : Joining}
    (joined : book.registry.joining? step = some joining) (latest : book.lastUnder? joining.name = some last)
    (free : book.registry.lobby.isOpen last.seat.1 = true) : joining.seat.1 = last.seat.1 := by
  obtain ⟨bag, person, later, keyHash, now, joins, same, _⟩ := Registry.serve_joining joined
  have known := grouped.current joining.name last latest free
  have home : joining.seat.1 = (book.registry.lobby.enter joining.name bag).1 := by
    rw [← joins.room, same]
    rfl
  rw [home]
  rcases book.registry.lobby.enter_found_or_new joining.name bag with ⟨found, _, _⟩ | ⟨closed, _, _⟩
  · exact Option.some.inj (found.symm.trans known)
  · rw [closed _ known] at free
    cases free

end Guestbook

namespace Registry

variable {registry : Registry} {request : Request} {id : PersonId} {target : String}

theorem serve_apart (seated : registry.Seated) (parsed : Request.parse target = .ok request)
    (asked : request.person? = some id) (keyHash : Option Key.Hash) (remote : Address) (now : Nat) (draw : Draw) :
    let after := registry.serve (.route target keyHash remote now draw)
    (∀ other, other ≠ id → after.person? other = registry.person? other) ∧
      (∀ num, (∀ person, registry.person? id = some person → person.room ≠ num) →
        after.lobby.room? num = registry.lobby.room? num) ∧
      after.lobby.pending = registry.lobby.pending := by
  have moved := registry.answer_lobby request keyHash remote now draw
  have moves := registry.answerMoves_person asked keyHash remote now draw
  rw [serve_request parsed]
  refine ⟨?_, ?_, ?_⟩
  · intro other apart
    apply (serves_answer seated request keyHash remote now draw).others
    intro sent
    have sender : (registry.answer request keyHash remote now draw).1.sender? request = some id := by
      cases request with
      | newPerson => cases asked
      | watchPerson | sendMessage | startTyping | stopTyping | keepAlive | leave | shout | turn | moveTile =>
        exact asked
    exact apart (Option.some.inj (sent.symm.trans sender))
  · intro num apart
    rw [moved]
    cases known : registry.person? id with
    | none =>
      have none : registry.answerMoves request keyHash remote now draw = [] := by
        apply List.eq_nil_iff_forall_not_mem.2
        intro move member
        obtain ⟨person, _, there, _⟩ := moves move member
        rw [known] at there
        cases there
      rw [none]
      rfl
    | some person =>
      apply Lobby.room?_moveAll (apart person known)
      intro move member
      obtain ⟨other, inner, there, same, _⟩ := moves move member
      obtain rfl := Option.some.inj (known.symm.trans there)
      exact ⟨inner, same⟩
  · rw [moved]
    apply Lobby.pending_moveAll
    intro move member
    obtain ⟨person, inner, _, same, _⟩ := moves move member
    exact ⟨person.room, inner, same⟩

theorem serve_joining_apart {step : ServerStep} {joining : Joining} (joined : registry.joining? step = some joining) :
    (∀ other person, registry.person? other = some person → (registry.serve step).person? other = some person) ∧
      ∀ num, joining.seat.1 ≠ num → (registry.serve step).lobby.room? num = registry.lobby.room? num := by
  obtain ⟨bag, person, later, keyHash, now, joins, same, served⟩ := serve_joining joined
  obtain ⟨moved, _, others⟩ := later.attach_watch person keyHash now
  rw [served]
  constructor
  · intro other found known
    have apart : person.id ≠ other := by
      intro here
      rw [← here, joins.fresh] at known
      cases known
    rw [others other apart, joins.persons, if_neg apart, known]
  · intro num apart
    have home : person.room ≠ num := by
      intro here
      rw [same] at apart
      exact apart here
    rw [moved, Lobby.room?_within, if_neg home, joins.others num home]

end Registry

theorem Guestbook.registry_run (book : Guestbook) (steps : List ServerStep) :
    (book.run steps).registry = book.registry.serveAll steps := by
  induction steps generalizing book with
  | nil => rfl
  | cons step rest ih => exact ih (book.step step)

/-- Rooms and persons are apart, whatever a server goes through. Persons are in one room only
if they came under one name, the players of a room are numbered as they came, and whoever comes
under a name comes to the room of the last who did, unless that room has started or is full. A
request shows in the record and the room of its person only, and who joins shows in nobody's
record and in the room joined only. -/
theorem rooms_apart (steps : List ServerStep) :
    let registry := Registry.serveAll {} steps
    let book := Guestbook.run {} steps
    (∀ one other first second, registry.person? one = some first → registry.person? other = some second →
      first.room = second.room → ∃ came also, book.joiningOf? one = some came ∧
        book.joiningOf? other = some also ∧ came.name = also.name) ∧
    (∀ num conversation, registry.conversation? num = some conversation →
      book.numbersIn num = List.range conversation.players.length) ∧
    (∀ id person, registry.person? id = some person →
      ∃ came, book.joiningOf? id = some came ∧ came.seat = (person.room, person.player)) ∧
    (∀ step joining last conversation, registry.joining? step = some joining →
      book.lastUnder? joining.name = some last → registry.conversation? last.seat.1 = some conversation →
      conversation.started = false → conversation.isFull = false → joining.seat.1 = last.seat.1) ∧
    (∀ target request id keyHash remote now draw, Request.parse target = .ok request →
      request.person? = some id →
      let after := registry.serve (.route target keyHash remote now draw)
      (∀ other, other ≠ id → after.person? other = registry.person? other) ∧
        ∀ num, (∀ person, registry.person? id = some person → person.room ≠ num) →
          after.lobby.room? num = registry.lobby.room? num) ∧
    ∀ target roomName name keyHash remote now draw, Request.parse target = .ok (.newPerson roomName name) →
      let step := ServerStep.route target keyHash remote now draw
      (∀ id person, registry.person? id = some person → (registry.serve step).person? id = some person) ∧
        ∀ num, (∀ joining, registry.joining? step = some joining → joining.seat.1 ≠ num) →
          (registry.serve step).lobby.room? num = registry.lobby.room? num := by
  intro registry book
  have seated : registry.Seated := Registry.seated_empty.serveAll steps
  have grouped : book.Grouped := Guestbook.grouped_empty.run steps
  have same : book.registry = registry := Guestbook.registry_run {} steps
  -- Everything else is read off the two invariants.
  clear_value registry book
  subst same
  have seat {id : PersonId} {person : Person} (known : book.registry.person? id = some person) :
      book.registry.seat? id = some (person.room, person.player) := by
    rw [Registry.seat?, known]
    rfl
  refine ⟨?_, ?_, fun id person known => grouped.persons id _ (seat known), ?_, ?_, ?_⟩
  · intro one other first second here there room
    obtain ⟨came, latest, home⟩ := grouped.persons one _ (seat here)
    obtain ⟨also, later, house⟩ := grouped.persons other _ (seat there)
    refine ⟨came, also, latest, later, grouped.named came ?_ also ?_ ?_⟩
    · exact List.mem_of_mem_filter (List.mem_of_getLast? latest)
    · exact List.mem_of_mem_filter (List.mem_of_getLast? later)
    · rw [home, house]
      exact room
  · intro num conversation known
    obtain ⟨room, there, rfl⟩ := Option.map_eq_some_iff.1 known
    rw [grouped.numbered, Lobby.headcount, there]
    rfl
  · intro step joining last conversation joined latest known waiting room
    obtain ⟨found, there, rfl⟩ := Option.map_eq_some_iff.1 known
    apply grouped.joins_current joined latest
    rw [Lobby.isOpen, there, Option.any_some, Room.isOpen, Conversation.isOpen, waiting, room]
    rfl
  · intro target request id keyHash remote now draw parsed asked
    obtain ⟨persons, rooms, _⟩ := Registry.serve_apart seated parsed asked keyHash remote now draw
    exact ⟨persons, rooms⟩
  · intro target roomName name keyHash remote now draw parsed step
    cases joined : book.registry.joining? step with
    | some joining =>
      obtain ⟨persons, rooms⟩ := Registry.serve_joining_apart joined
      exact ⟨persons, fun num apart => rooms num (apart joining rfl)⟩
    | none =>
      rw [Registry.joining?_request parsed, Registry.newcomer?, Option.map_eq_none_iff] at joined
      have still : book.registry.serve step = book.registry := by
        rw [Registry.serve_request parsed, Registry.answer, Registry.join_nobody joined]
      rw [still]
      exact ⟨fun _ _ known => known, fun _ _ => rfl⟩

end TileRoom
