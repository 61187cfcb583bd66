import TileRoom.Proofs.Grouping

/-! Looking for a room by its name. A lookup gives the room of the last lookup of the name as long
as it can be joined, and a new room when it cannot. The table of names is a cache: what a lookup
gives can be told from the lookups before and from the rooms, so names may be forgotten at any
time. -/

namespace TileRoom

structure Lookup where
  name : String
  num : RoomNum

def Lookup.last? (past : List Lookup) (name : String) : Option RoomNum :=
  (past.filter fun lookup => lookup.name = name).getLast?.map (·.num)

theorem Lookup.last?_concat (past : List Lookup) (lookup : Lookup) (name : String) :
    Lookup.last? (past ++ [lookup]) name = if lookup.name = name then some lookup.num else Lookup.last? past name := by
  rw [Lookup.last?, Guestbook.getLast?_filter_concat]
  by_cases here : lookup.name = name
  · rw [if_pos here, if_pos (decide_eq_true here), Option.map_some]
  · rw [if_neg here, if_neg (Bool.eq_false_iff.1 (decide_eq_false here)), Lookup.last?]

theorem Lookup.mem_of_last? {past : List Lookup} {name : String} {num : RoomNum}
    (last : Lookup.last? past name = some num) : ∃ lookup ∈ past, lookup.name = name ∧ lookup.num = num := by
  obtain ⟨lookup, latest, same⟩ := Option.map_eq_some_iff.1 last
  obtain ⟨member, named⟩ := List.mem_filter.1 (List.mem_of_getLast? latest)
  exact ⟨lookup, member, of_decide_eq_true named, same⟩

def LobbyMove.isPrune : LobbyMove → Bool
  | .prune => true
  | .enter .. | .within .. => false

namespace Lobby

def lookup? (lobby : Lobby) : LobbyMove → Option Lookup
  | .enter name bag => some ⟨name, (lobby.enter name bag).1⟩
  | .prune | .within .. => none

def lookups (lobby : Lobby) : List LobbyMove → List Lookup
  | [] => []
  | move :: rest => (lobby.lookup? move).toList ++ (lobby.move move).lookups rest

variable {lobby one other : Lobby} {past : List Lookup}

/-- The rooms and names of a lobby where some lookups were made before. -/
structure Recalls (lobby : Lobby) (past : List Lookup) : Prop where
  made : ∀ lookup ∈ past, lookup.num < lobby.rooms.length
  named : ∀ first ∈ past, ∀ second ∈ past, first.num = second.num → first.name = second.name
  inside : ∀ name num, lobby.pending.find? name = some num → num < lobby.rooms.length
  cached : ∀ name, (lobby.pending.find? name).filter lobby.isOpen = (Lookup.last? past name).filter lobby.isOpen

theorem recalls_empty : Recalls {} [] :=
  ⟨List.forall_mem_nil _, List.forall_mem_nil _, nofun, fun _ => rfl⟩

theorem Recalls.enter_eq (recalls : lobby.Recalls past) (name : String) (bag : List Char) :
    (lobby.enter name bag).1 = ((Lookup.last? past name).filter lobby.isOpen).getD lobby.rooms.length ∧
      (lobby.enter name bag).2.rooms =
        lobby.rooms ++ ((Lookup.last? past name).filter lobby.isOpen).elim [.ofBag bag] fun _ => [] := by
  unfold enter
  rw [recalls.cached]
  cases (Lookup.last? past name).filter lobby.isOpen with
  | none => exact ⟨rfl, rfl⟩
  | some num => exact ⟨rfl, (List.append_nil _).symm⟩

theorem filter_isOpen_grown {found : Option RoomNum} (inside : ∀ num, found = some num → num < lobby.rooms.length)
    (room : Room) (pending : Table String RoomNum) :
    found.filter (Lobby.isOpen { rooms := lobby.rooms ++ [room], pending }) = found.filter lobby.isOpen := by
  cases found with
  | none => rfl
  | some num =>
    have same : Lobby.isOpen { rooms := lobby.rooms ++ [room], pending } num = lobby.isOpen num := by
      rw [isOpen, isOpen, room?, room?, List.getElem?_append_left (inside num rfl)]
    rw [Option.filter_some, Option.filter_some, same]

theorem Recalls.last_inside (recalls : lobby.Recalls past) (name : String) (num : RoomNum)
    (last : Lookup.last? past name = some num) : num < lobby.rooms.length := by
  obtain ⟨lookup, member, _, rfl⟩ := Lookup.mem_of_last? last
  exact recalls.made lookup member

theorem Recalls.onward {later : Lobby} (recalls : lobby.Recalls past)
    (count : later.rooms.length = lobby.rooms.length)
    (closing : ∀ num, later.isOpen num = true → lobby.isOpen num = true)
    (pending : ∀ name, (later.pending.find? name).filter later.isOpen =
      (lobby.pending.find? name).filter later.isOpen)
    (known : ∀ name num, later.pending.find? name = some num → lobby.pending.find? name = some num) :
    later.Recalls past := by
  have narrow (found : Option RoomNum) :
      found.filter later.isOpen = (found.filter lobby.isOpen).filter later.isOpen := by
    rw [Option.filter_filter]
    congr 1
    funext num
    cases free : later.isOpen num with
    | false => rw [Bool.and_false]
    | true => rw [closing num free, Bool.and_true]
  constructor
  case made =>
    rw [count]
    exact recalls.made
  case named => exact recalls.named
  case inside =>
    intro name num found
    rw [count]
    exact recalls.inside name num (known name num found)
  case cached =>
    intro name
    rw [pending, narrow, recalls.cached, ← narrow]

theorem Recalls.within (recalls : lobby.Recalls past) (num : RoomNum) (move : RoomMove) :
    (lobby.move (.within num move)).Recalls past := by
  have pending := lobby.pending_within num move
  apply recalls.onward
  · exact lobby.length_within num move
  · exact fun other => isOpen_within lobby num other move
  · intro name
    rw [pending]
  · intro name found known
    rwa [pending] at known

theorem Recalls.prune (recalls : lobby.Recalls past) : lobby.prune.Recalls past := by
  have same : lobby.prune.isOpen = lobby.isOpen := rfl
  have count : lobby.prune.rooms.length = lobby.rooms.length := rfl
  apply recalls.onward count fun _ free => free
  · intro name
    rw [pending_prune, same, Option.filter_filter]
    simp only [Bool.and_self]
  · intro name num known
    rw [pending_prune] at known
    exact (Option.filter_eq_some_iff.1 known).1

theorem Recalls.own (recalls : lobby.Recalls past) {name : String} {bag : List Char} {lookup : Lookup}
    (member : lookup ∈ past) (given : lookup.num = (lobby.enter name bag).1) : lookup.name = name := by
  rw [(recalls.enter_eq name bag).1] at given
  cases found : (Lookup.last? past name).filter lobby.isOpen with
  | none =>
    rw [found, Option.getD_none] at given
    exact absurd given (Nat.ne_of_lt (recalls.made lookup member))
  | some num =>
    obtain ⟨last, _⟩ := Option.filter_eq_some_iff.1 found
    obtain ⟨before, also, called, same⟩ := Lookup.mem_of_last? last
    rw [found, Option.getD_some] at given
    rw [← called]
    exact recalls.named lookup member before also (given.trans same.symm)

theorem Recalls.enter (recalls : lobby.Recalls past) (name : String) (bag : List Char) :
    (lobby.enter name bag).2.Recalls (past ++ [⟨name, (lobby.enter name bag).1⟩]) := by
  have named : ∀ first ∈ past ++ [⟨name, (lobby.enter name bag).1⟩],
      ∀ second ∈ past ++ [⟨name, (lobby.enter name bag).1⟩],
        first.num = second.num → first.name = second.name := by
    intro first one second two same
    rcases List.mem_append.1 one with old | now
    · rcases List.mem_append.1 two with also | new
      · exact recalls.named first old second also same
      · rw [List.mem_singleton.1 new] at same ⊢
        exact recalls.own old same
    · rw [List.mem_singleton.1 now] at same ⊢
      rcases List.mem_append.1 two with also | new
      · exact (recalls.own also same.symm).symm
      · rw [List.mem_singleton.1 new]
  rcases lobby.enter_found_or_new name bag with ⟨known, free, same⟩ | ⟨closed, new, grown⟩
  · -- The room of the last lookup of the name is given again.
    have cached := recalls.cached name
    rw [known, Option.filter_some, if_pos free] at cached
    obtain ⟨last, _⟩ := Option.filter_eq_some_iff.1 cached.symm
    rw [same]
    constructor
    case named => exact named
    case made =>
      intro lookup given
      rcases List.mem_append.1 given with old | now
      · exact recalls.made lookup old
      · rw [List.mem_singleton.1 now]
        exact recalls.inside name _ known
    case inside => exact recalls.inside
    case cached =>
      intro wanted
      rw [Lookup.last?_concat, recalls.cached]
      split
      next here => rw [← here, last]
      next => rfl
  · rw [new] at named
    rw [new, grown]
    constructor
    case named => exact named
    case made =>
      intro lookup given
      rw [List.length_append, List.length_singleton]
      rcases List.mem_append.1 given with old | now
      · exact Nat.lt_succ_of_lt (recalls.made lookup old)
      · rw [List.mem_singleton.1 now]
        exact Nat.lt_succ_self _
    case inside =>
      intro wanted num found
      rw [List.length_append, List.length_singleton]
      rw [Table.find?_put] at found
      split at found
      next => exact Option.some.inj found ▸ Nat.lt_succ_self _
      next => exact Nat.lt_succ_of_lt (recalls.inside wanted num found)
    case cached =>
      intro wanted
      rw [Table.find?_put, Lookup.last?_concat]
      by_cases here : name = wanted
      · rw [if_pos here, if_pos here]
      · rw [if_neg here, if_neg here]
        rw [filter_isOpen_grown (recalls.inside wanted), filter_isOpen_grown (recalls.last_inside wanted)]
        exact recalls.cached wanted

theorem Recalls.move (recalls : lobby.Recalls past) (move : LobbyMove) :
    (lobby.move move).Recalls (past ++ (lobby.lookup? move).toList) := by
  cases move with
  | enter name bag => exact recalls.enter name bag
  | prune =>
    rw [lookup?, Option.toList_none, List.append_nil]
    exact recalls.prune
  | within num move =>
    rw [lookup?, Option.toList_none, List.append_nil]
    exact recalls.within num move

theorem Recalls.moveAll (recalls : lobby.Recalls past) (moves : List LobbyMove) :
    (lobby.moveAll moves).Recalls (past ++ lobby.lookups moves) := by
  induction moves generalizing lobby past with
  | nil =>
    rw [lookups, List.append_nil]
    exact recalls
  | cons move rest ih =>
    rw [lookups, ← List.append_assoc]
    exact ih (recalls.move move)

theorem Recalls.enter_congr (recalls : one.Recalls past) (others : other.Recalls past) (rooms : one.rooms = other.rooms)
    (name : String) (bag : List Char) :
    (one.enter name bag).1 = (other.enter name bag).1 ∧
      (one.enter name bag).2.rooms = (other.enter name bag).2.rooms := by
  have free : one.isOpen = other.isOpen := by
    funext num
    rw [isOpen, isOpen, room?, room?, rooms]
  rw [(recalls.enter_eq name bag).1, (recalls.enter_eq name bag).2, (others.enter_eq name bag).1,
    (others.enter_eq name bag).2, free, rooms]
  exact ⟨rfl, rfl⟩

theorem rooms_within (rooms : one.rooms = other.rooms) (num : RoomNum) (move : RoomMove) :
    (one.move (.within num move)).rooms = (other.move (.within num move)).rooms := by
  apply List.ext_getElem?
  intro place
  have first := one.room?_within num place move
  have second := other.room?_within num place move
  rw [room?, room?] at first second
  rw [first, second, rooms]

/-- Names may be forgotten at any time: it shows in no lookup and in no room. -/
theorem Recalls.unpruned (recalls : one.Recalls past) (others : other.Recalls past) (rooms : one.rooms = other.rooms)
    (moves : List LobbyMove) :
    one.lookups moves = other.lookups (moves.filter (!·.isPrune)) ∧
      (one.moveAll moves).rooms = (other.moveAll (moves.filter (!·.isPrune))).rooms := by
  induction moves generalizing one other past with
  | nil => exact ⟨rfl, rooms⟩
  | cons move rest ih =>
    cases move with
    | prune => exact ih recalls.prune others rooms
    | enter name bag =>
      obtain ⟨same, grown⟩ := recalls.enter_congr others rooms name bag
      have later := recalls.enter name bag
      rw [same] at later
      obtain ⟨lookups, final⟩ := ih later (others.enter name bag) grown
      refine ⟨?_, final⟩
      rw [List.filter_cons_of_pos rfl, Lobby.lookups, Lobby.lookups, lookup?, lookup?, same]
      exact congrArg _ lookups
    | within num move =>
      exact ih (recalls.within num move) (others.within num move) (rooms_within rooms num move)

/-- What a lookup of a name gives, after other lookups. -/
structure Finds (lobby : Lobby) (past : List Lookup) (name : String) (bag : List Char) (num : RoomNum)
    (after : Lobby) : Prop where
  joinable : ∃ room, after.room? num = some room ∧ room.isOpen = true ∧
    ∀ player, (room.act (.join player)).1.answer = .number (some room.conversation.players.length)
  again : ∀ last, Lookup.last? past name = some last → (num = last ↔ lobby.isOpen last = true)
  fresh : (∀ last, Lookup.last? past name = some last → lobby.isOpen last = false) →
    lobby.room? num = none ∧ after.room? num = some (.ofBag bag) ∧ ∀ lookup ∈ past, lookup.num ≠ num
  own : ∀ lookup ∈ past, lookup.num = num → lookup.name = name

theorem Recalls.finds (recalls : lobby.Recalls past) (name : String) (bag : List Char) :
    lobby.Finds past name bag (lobby.enter name bag).1 (lobby.enter name bag).2 := by
  obtain ⟨given, rooms⟩ := recalls.enter_eq name bag
  constructor
  case joinable =>
    obtain ⟨room, there, free⟩ := Registry.enter_open lobby name bag
    exact ⟨room, there, free, fun player => congrArg Answer.number (Conversation.players_join free player).2⟩
  case again =>
    intro last latest
    rw [given, latest, Option.filter_some]
    cases free : lobby.isOpen last with
    | true => exact iff_of_true rfl rfl
    | false => exact iff_of_false (Nat.ne_of_gt (recalls.last_inside name last latest)) Bool.false_ne_true
  case fresh =>
    intro closed
    have none : (Lookup.last? past name).filter lobby.isOpen = none :=
      Option.filter_eq_none_iff.2 fun last latest => Bool.eq_false_iff.1 (closed last latest)
    rw [none] at given rooms
    refine ⟨?_, ?_, ?_⟩
    · rw [given]
      exact List.getElem?_eq_none (Nat.le_refl _)
    · rw [given, room?, rooms]
      exact List.getElem?_concat_length
    · intro lookup member
      rw [given]
      exact Nat.ne_of_lt (recalls.made lookup member)
  case own => exact fun lookup member => recalls.own member

/-- Whatever was looked up before and whatever happened in the rooms, a lookup gives a room that can
be joined: the one of the last lookup of the name if that can still be joined, or else a new one, and
never one that another name was given. It makes no difference when names were forgotten. -/
theorem enter_finds (moves : List LobbyMove) (name : String) (bag : List Char) :
    let lobby := moveAll {} moves
    lobby.Finds (lookups {} moves) name bag (lobby.enter name bag).1 (lobby.enter name bag).2 ∧
      ∀ others : List LobbyMove, others.filter (!·.isPrune) = moves.filter (!·.isPrune) →
        lookups {} others = lookups {} moves ∧ (moveAll {} others).rooms = lobby.rooms ∧
          ((moveAll {} others).enter name bag).1 = (lobby.enter name bag).1 := by
  intro lobby
  have recalls (moves : List LobbyMove) : (moveAll {} moves).Recalls (lookups {} moves) :=
    recalls_empty.moveAll moves
  refine ⟨(recalls moves).finds name bag, ?_⟩
  intro others same
  obtain ⟨past, rooms⟩ := recalls_empty.unpruned recalls_empty rfl moves
  obtain ⟨otherPast, otherRooms⟩ := recalls_empty.unpruned recalls_empty rfl others
  rw [same] at otherPast otherRooms
  have lookups := otherPast.trans past.symm
  have left := otherRooms.trans rooms.symm
  exact ⟨lookups, left, ((lookups ▸ recalls others).enter_congr (recalls moves) left name bag).1⟩

end Lobby

end TileRoom
