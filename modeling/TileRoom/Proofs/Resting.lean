import TileRoom.Proofs.Linking
import TileRoom.Proofs.Notifying

/-! Streams that rest. A stream that was read to its end for now has a notice or nothing to say,
and it stays so whatever a server does, as long as nobody else tends to it. So a read without a
notice gives nothing and changes nothing. -/

namespace TileRoom

def RoomMove.watch? : RoomMove → Option WatchId
  | .act _ | .watch .. => none
  | .unwatch listener | .read listener _ | .takeNotice listener => some listener

def LobbyMove.stream? : LobbyMove → Option (RoomNum × WatchId)
  | .enter .. | .prune => none
  | .within num move => move.watch?.map (num, ·)

namespace WatchStream

theorem read_quiet {stream : WatchStream} {room : Conversation} (quiet : stream.hasPending room = false)
    (going : stream.isFinished = false) (size : Nat) : stream.read room size = ([], stream) := by
  cases phase : stream.phase with
  | head | frame | farewell =>
    rw [hasPending, phase] at quiet
    cases quiet
  | done =>
    rw [isFinished, phase] at going
    cases going
  | waiting =>
    rw [hasPending, phase] at quiet
    rw [read_waiting room stream size phase, select?, Option.isSome_eq_false_iff.1 quiet |> Option.isNone_iff_eq_none.1]
    exact ite_self _

end WatchStream

namespace Room

variable {room later : Room} {watch : WatchId} {stream : WatchStream}

/-- A stream that rests: it is there, and it has a notice or nothing to say. -/
structure Rests (room : Room) (watch : WatchId) : Prop where
  there : (room.stream? watch).isSome = true
  calm : room.Calm watch

theorem Rests.same (rests : room.Rests watch) (quiet : later.conversation = room.conversation)
    (alone : later.stream? watch = room.stream? watch) : later.Rests watch :=
  ⟨alone ▸ rests.there, rests.calm.same quiet alone⟩

theorem Rests.move (rests : room.Rests watch) (wired : room.Wired) {move : RoomMove}
    (apart : move.watch? ≠ some watch) : (room.move move).Rests watch := by
  have tends {other : WatchId} {later : Room} (apart : some other ≠ some watch) (tends : room.Tends other later) :
      later.Rests watch :=
    rests.same tends.conversation (tends.others watch fun same => apart (congrArg some same))
  cases move with
  | act action =>
    refine ⟨?_, rests.calm.act wired action⟩
    rw [Room.move, stream?_act wired, Option.isSome_map]
    exact rests.there
  | watch id player lastMessage keyHash =>
    refine rests.same rfl ?_
    rw [Room.move, stream?_watch, if_neg]
    intro same
    obtain ⟨stream, found⟩ := Option.isSome_iff_exists.1 rests.there
    exact absurd (lt_of_stream? wired found) (same ▸ Nat.lt_irrefl _)
  | unwatch other => exact tends apart (tends_unwatch wired)
  | read other size => exact tends apart (tends_read wired size)
  | takeNotice other => exact tends apart (tends_takeNotice wired)

theorem rests_of_read {size : Nat} (space : 0 < size) (empty : (room.read watch size).1 = [])
    (going : ((room.read watch size).2.stream? watch).all (·.isFinished) = false) :
    (room.read watch size).2.Rests watch := by
  cases found : room.stream? watch with
  | none =>
    rw [read, found] at going
    simp only [found] at going
    cases going
  | some stream =>
    obtain ⟨bytes, after, quiet⟩ := read_some found size
    rw [after] at going
    rw [bytes] at empty
    refine ⟨by rw [after]; rfl, Or.inr ⟨?_, by rw [after]; exact going⟩⟩
    rw [hasPending, after, quiet]
    exact WatchStream.hasPending_of_read_nil space empty

theorem alike_updateStream (room : Room) (watch : WatchId) (f : WatchStream → WatchStream)
    (same : ∀ stream, room.stream? watch = some stream → (f stream).notify = stream.notify) :
    room.Alike (room.updateStream watch f) := by
  refine ⟨rfl, rfl, rfl, rfl, fun other => ?_⟩
  rw [updateStream, Table.find?_update]
  split
  next here =>
    cases found : room.watches.find? other with
    | none => rfl
    | some entry =>
      have known := same entry.stream (by rw [stream?, here, found]; rfl)
      simp only [Option.map_some, Watch.notify, known]
  next => rfl

theorem Rests.read (rests : room.Rests watch) (unnoticed : room.isNotified watch = false) (size : Nat) :
    (room.read watch size).1 = [] ∧ room.Alike (room.read watch size).2 ∧
      ((room.read watch size).2.stream? watch).all (·.isFinished) = false := by
  obtain ⟨stream, found⟩ := Option.isSome_iff_exists.1 rests.there
  rcases rests.calm with noticed | ⟨quiet, going⟩
  · rw [unnoticed] at noticed
    cases noticed
  · rw [hasPending, found] at quiet
    rw [found] at going
    have same := WatchStream.read_quiet quiet going size
    obtain ⟨bytes, after, _⟩ := read_some found size
    rw [bytes, after, same]
    refine ⟨rfl, ?_, going⟩
    rw [Room.read, found]
    simp only [same]
    refine alike_updateStream room watch _ fun other known => ?_
    obtain rfl := Option.some.inj (found.symm.trans known)
    rfl

theorem alike_takeNotice (room : Room) (watch : WatchId) : room.Alike (room.takeNotice watch).2 :=
  alike_updateStream room watch ({ · with notified := false }) fun _ _ => rfl

end Room

namespace Lobby

def Wired (lobby : Lobby) : Prop :=
  ∀ num room, lobby.room? num = some room → room.Wired

variable {lobby : Lobby} {num : RoomNum} {watch : WatchId}

theorem Wired.move (wired : lobby.Wired) (move : LobbyMove) : (lobby.move move).Wired :=
  Everywhere.move (fun _ => Room.wired_ofConversation _) (fun move wired => Room.wired_move wired move) wired move

theorem Wired.moveAll (wired : lobby.Wired) (moves : List LobbyMove) : (lobby.moveAll moves).Wired := by
  induction moves generalizing lobby with
  | nil => exact wired
  | cons move rest ih => exact ih (wired.move move)

def Rests (lobby : Lobby) (num : RoomNum) (watch : WatchId) : Prop :=
  ∃ room, lobby.room? num = some room ∧ room.Rests watch

theorem Rests.move (rests : lobby.Rests num watch) (wired : lobby.Wired) {move : LobbyMove}
    (apart : move.stream? ≠ some (num, watch)) : (lobby.move move).Rests num watch := by
  obtain ⟨room, there, rests⟩ := rests
  cases move with
  | enter name bag => exact ⟨room, (Registry.enter_spec lobby name bag).1 num room there, rests⟩
  | prune => exact ⟨room, there, rests⟩
  | within other inner =>
    rw [Rests, room?_within]
    by_cases here : other = num
    · rw [if_pos here, there]
      refine ⟨_, rfl, rests.move (wired num room there) fun same => apart ?_⟩
      rw [LobbyMove.stream?, same, here]
      rfl
    · rw [if_neg here]
      exact ⟨room, there, rests⟩

theorem Rests.moveAll (rests : lobby.Rests num watch) (wired : lobby.Wired) {moves : List LobbyMove}
    (apart : ∀ move ∈ moves, move.stream? ≠ some (num, watch)) : (lobby.moveAll moves).Rests num watch := by
  induction moves generalizing lobby with
  | nil => exact rests
  | cons move rest ih =>
    exact ih (rests.move wired (apart move List.mem_cons_self)) (wired.move move)
      fun later member => apart later (List.mem_cons_of_mem move member)

theorem alike_setRoom {room later : Room} (there : lobby.room? num = some room) (alike : room.Alike later) :
    lobby.Alike (lobby.setRoom num later) := by
  refine ⟨rfl, List.length_set, fun other found known => ?_⟩
  rw [room?_setRoom, known]
  by_cases here : num = other
  · obtain rfl := Option.some.inj ((here ▸ there).symm.trans known)
    rw [if_pos here]
    exact ⟨later, rfl, alike⟩
  · rw [if_neg here]
    exact ⟨found, rfl, .refl found⟩

end Lobby

namespace Registry

variable {registry : Registry} {response : Response}

theorem answerMoves_stream? (registry : Registry) (request : Request) (keyHash : Option Key.Hash)
    (remote : Address) (now : Nat) (draw : Draw) :
    ∀ move ∈ registry.answerMoves request keyHash remote now draw, move.stream? = none := by
  unfold answerMoves
  split
  next roomName name =>
    cases (registry.join roomName name remote now draw).1 with
    | none => exact List.forall_mem_nil _
    | some person =>
      intro move member
      simp only [List.mem_cons, List.not_mem_nil, or_false] at member
      rcases member with rfl | rfl | rfl | rfl <;> rfl
  next =>
    cases registry.sender? request with
    | none => exact List.forall_mem_nil _
    | some person =>
      intro move member
      obtain ⟨inner, chosen, rfl⟩ := List.mem_map.1 member
      rw [Option.mem_toList] at chosen
      have asked : inner.watch? = none := by cases request <;> cases chosen <;> rfl
      rw [LobbyMove.stream?, asked]
      rfl

theorem moves_stream? (registry : Registry) (step : ServerStep) :
    ∀ move ∈ registry.moves step, move.stream? = none ∨ move.stream? = step.stream? := by
  have within (response : Response) (inner : WatchId → RoomMove)
      (tends : ∀ watch, (inner watch).watch? = some watch) :
      ∀ move ∈ response.within inner, move.stream? = response.stream? := by
    intro move member
    cases response with
    | reply => cases member
    | stream num watch =>
      obtain rfl := List.mem_singleton.1 member
      rw [LobbyMove.stream?, tends]
      rfl
  intro move member
  cases step with
  | read response size => exact Or.inr (within response _ (fun _ => rfl) move member)
  | takeNotice response => exact Or.inr (within response _ (fun _ => rfl) move member)
  | close routed now => exact Or.inr (within routed.response _ (fun _ => rfl) move member)
  | route target keyHash remote now draw =>
    left
    cases parsed : Request.parse target with
    | error cause =>
      rw [(registry.serve_no_request parsed keyHash remote now draw).2] at member
      cases member
    | ok request =>
      rw [moves_request parsed] at member
      exact answerMoves_stream? registry request keyHash remote now draw move member
  | check personTimeout shoutDuration now =>
    left
    rcases List.mem_append.1 member with first | last
    · obtain ⟨person, rfl⟩ := registry.mem_removeMoves _ move first
      rfl
    · obtain ⟨num, _, rfl⟩ := List.mem_map.1 last
      rfl

/-- A stream rests on whatever a server does, unless it is tended to. -/
theorem rests_serve {num : RoomNum} {watch : WatchId} (rests : registry.lobby.Rests num watch)
    (wired : registry.lobby.Wired) {step : ServerStep} (apart : step.stream? ≠ some (num, watch)) :
    (registry.serve step).lobby.Rests num watch := by
  rw [serve_lobby]
  refine rests.moveAll wired fun move member same => ?_
  rcases registry.moves_stream? step move member with none | tends
  · cases none.symm.trans same
  · exact apart (tends.symm.trans same)

theorem wired_serve (wired : registry.lobby.Wired) (step : ServerStep) : (registry.serve step).lobby.Wired := by
  rw [serve_lobby]
  exact wired.moveAll _

theorem wired_serveAll (wired : registry.lobby.Wired) (steps : List ServerStep) :
    (registry.serveAll steps).lobby.Wired := by
  induction steps generalizing registry with
  | nil => exact wired
  | cons step rest ih => exact ih (wired_serve wired step)

variable {num : RoomNum} {watch : WatchId}

theorem read_there {room : Room} (there : registry.lobby.room? num = some room) (watch : WatchId) (size : Nat) :
    registry.read (.stream num watch) size = ((room.read watch size).1, .stream num watch,
      { registry with lobby := registry.lobby.setRoom num (room.read watch size).2 }) := by
  rw [Registry.read, there]

theorem isFinished_there {room : Room} (there : registry.lobby.room? num = some room) (watch : WatchId) :
    registry.isFinished (.stream num watch) = (room.stream? watch).all (·.isFinished) := by
  rw [isFinished, stream?, there, Option.bind_some]

theorem rests_of_read {after : Registry} {size : Nat} (space : 0 < size)
    (read : registry.read (.stream num watch) size = ([], response, after))
    (going : after.isFinished response = false) : after.lobby.Rests num watch := by
  cases there : registry.lobby.room? num with
  | none =>
    rw [Registry.read, there] at read
    obtain ⟨rfl, rfl⟩ := Prod.mk.inj (Prod.mk.inj read).2
    rw [isFinished, stream?, there] at going
    cases going
  | some room =>
    rw [read_there there] at read
    obtain ⟨empty, rest⟩ := Prod.mk.inj read
    obtain ⟨rfl, rfl⟩ := Prod.mk.inj rest
    have later := room?_setRoom_self there (room.read watch size).2
    rw [isFinished_there later] at going
    exact ⟨_, later, Room.rests_of_read space empty going⟩

theorem read_resting (rests : registry.lobby.Rests num watch)
    (unnoticed : Link.isNotified registry (.stream num watch) = false) (size : Nat) :
    (registry.read (.stream num watch) size).1 = [] ∧
      registry.Alike (registry.read (.stream num watch) size).2.2 ∧
      (registry.read (.stream num watch) size).2.2.isFinished (.stream num watch) = false := by
  obtain ⟨room, there, rests⟩ := rests
  rw [Link.isNotified_stream there] at unnoticed
  obtain ⟨empty, alike, going⟩ := rests.read unnoticed size
  have later := room?_setRoom_self there (room.read watch size).2
  rw [read_there there, isFinished_there later]
  exact ⟨empty, ⟨rfl, Lobby.alike_setRoom there alike⟩, going⟩

theorem alike_takeNotice (registry : Registry) (response : Response) :
    registry.Alike (Link.takeNotice registry response) := by
  cases response with
  | reply => exact .refl registry
  | stream num watch =>
    rw [Link.takeNotice]
    cases there : registry.lobby.room? num with
    | none => exact .refl registry
    | some room => exact ⟨rfl, Lobby.alike_setRoom there (room.alike_takeNotice watch)⟩

end Registry

end TileRoom
