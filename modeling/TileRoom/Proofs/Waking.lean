import TileRoom.Proofs.Pumping

/-! No wake-up of a stream is lost. Whatever happens in a room between the steps of the tasks
that write its streams, a task that waits without a notice has written all there is to
tell. -/

namespace TileRoom

namespace Pump

variable {room : Room} {pump : Pump}

/-- A task has written all there is to tell: its stream has nothing to say, and what it wrote
is the text of frames in order, among them the names of all players and all messages from the
first one on. -/
structure Delivered (room : Room) (pump : Pump) (told : List Frame) : Prop where
  pending : room.hasPending pump.watch = false
  written : pump.written =
    WatchStream.text pump.viewer.keyHash pump.viewer.player pump.viewer.id told
  ordered : WellOrdered room.conversation pump.viewer.player pump.viewer.first told
  names : told.filterMap Frame.name? =
    room.conversation.players.map fun player => (player.num, player.name)
  messages : told.filterMap Frame.message? =
    room.conversation.messages.drop pump.viewer.first

theorem Serves.settled (serves : pump.Serves room) (waiting : pump.phase = .waiting)
    (unnoticed : room.isNotified pump.watch = false) :
    room.hasPending pump.watch = false ∧
      (room.stream? pump.watch).any (·.isFinished) = false := by
  rcases serves.calm (Or.inr waiting) with noticed | settled
  · rw [unnoticed] at noticed
    cases noticed
  · exact settled

theorem Serves.delivered (serves : pump.Serves room) (waiting : pump.phase = .waiting)
    (unnoticed : room.isNotified pump.watch = false) : ∃ told, pump.Delivered room told := by
  obtain ⟨pending, unfinished⟩ := serves.settled waiting unnoticed
  obtain ⟨told, _, consistent, stream, found, orders, spelled⟩ := serves.keeps
  have drained : stream.Drained room.conversation := by
    rw [Room.hasPending, found] at pending
    rw [found] at unfinished
    exact WatchStream.drained_of_idle unfinished pending
  have closing : stream.closing = [] := by rw [WatchStream.closing, drained.phase]
  have last : .finish ∉ told := (closing ▸ orders).goes
  have none : pump.unsent = [] := by rw [unsent, waiting]
  refine ⟨told, ⟨pending, ?_, orders.wellOrdered consistent, ?_, ?_⟩⟩
  · have written := drained.written spelled
    rw [none, List.append_nil] at written
    rw [written, WatchStream.text, if_neg last, List.append_nil]
    rfl
  · have named : room.conversation.players.length ≤ stream.agenda.namedPlayers := drained.named
    rw [orders.recounts.names, List.take_of_length_le named]
  · have said : room.conversation.messages.length ≤ stream.agenda.nextMessage := drained.told
    have messages := congrArg (List.drop pump.viewer.first) orders.recounts.messages
    rw [List.drop_left' (List.length_take_of_le orders.knew), List.take_of_length_le said] at messages
    exact messages

theorem waiting_of_isIdle (idle : pump.isIdle room = true) (going : pump.phase ≠ .ended) :
    pump.phase = .waiting ∧ room.isNotified pump.watch = false := by
  unfold isIdle at idle
  split at idle
  next => cases idle
  next => cases idle
  next => cases idle
  next waiting => exact ⟨waiting, Bool.not_eq_true' _ ▸ idle⟩
  next ended => exact absurd ended going

end Pump

/-- No wake-up of a stream is lost. Whatever operations, new streams and steps of the tasks
follow each other in a room, no task waits without a notice while its stream has something to
say; so when no task can go on, each one that is still open has written all there is to
tell. -/
theorem no_wakeup_lost (bag : List Char) (steps : List RelayStep) :
    let relay := Relay.run { room := .ofBag bag } steps
    (∀ pump ∈ relay.pumps, pump.phase = .waiting → relay.room.isNotified pump.watch = false →
        relay.room.hasPending pump.watch = false) ∧
      (relay.isQuiet = true → ∀ pump ∈ relay.pumps, pump.phase ≠ .ended →
        ∃ told, pump.Delivered relay.room told) := by
  intro relay
  have orderly : relay.Orderly := (Relay.orderly_ofBag bag).run steps
  clear_value relay
  constructor
  · intro pump member waiting unnoticed
    obtain ⟨index, found⟩ := List.mem_iff_getElem?.1 member
    have going : pump.phase ≠ .ended := by
      rw [waiting]
      decide
    exact ((orderly.serves index pump found going).settled waiting unnoticed).1
  · intro quiet pump member going
    obtain ⟨index, found⟩ := List.mem_iff_getElem?.1 member
    obtain ⟨waiting, unnoticed⟩ :=
      Pump.waiting_of_isIdle (List.all_eq_true.1 quiet pump member) going
    exact (orderly.serves index pump found going).delivered waiting unnoticed

theorem Room.read_head {room : Room} {watch : WatchId} {stream : WatchStream}
    (found : room.stream? watch = some stream) (first : stream.phase = .head)
    (start : stream.pos = 0) (more : Nat) :
    room.read watch (stream.head.length + more) =
      (stream.head ++ (stream.settled.read room.conversation more).1,
        room.updateStream watch fun _ => (stream.settled.read room.conversation more).2) := by
  have said : stream.message? = some stream.head := by rw [WatchStream.message?, first]
  rw [Room.read, found]
  dsimp only
  rw [WatchStream.read_writing room.conversation stream _ stream.head said, start, if_pos (by omega),
    Nat.sub_zero, Nat.add_sub_cancel_left]
  rfl

theorem WatchStream.opening_ne_nil (keyHash : Option Key.Hash) : opening keyHash ≠ [] := by
  apply List.append_ne_nil_of_right_ne_nil
  rw [Frame.paddingTexts, List.flatMap_cons]
  apply List.append_ne_nil_of_left_ne_nil
  exact List.length_pos_iff.1 (frame_nonempty _)

theorem Relay.run_opening (room : Room) (id : PersonId) (player lastMessage : Nat)
    (keyHash : Option Key.Hash) (inside : player < room.conversation.players.length) :
    let size := (WatchStream.opening keyHash).length
    let stream := (WatchStream.opened room.conversation id player lastMessage keyHash).settled
    let next := stream.read room.conversation 1
    Relay.run { room } [.watch id player lastMessage keyHash, .pump 0 (.fetch size),
        .pump 0 (.send size)] =
      { room := (room.watch id player lastMessage keyHash).2.updateStream room.nextWatch fun _ =>
          next.2
        pumps := [{
          watch := room.nextWatch
          viewer := ⟨id, player, min lastMessage room.conversation.messages.length, keyHash⟩
          written := WatchStream.opening keyHash ++ next.1 }] } := by
  intro size stream next
  let opened := (room.watch id player lastMessage keyHash).2
  let viewer : Viewer :=
    ⟨id, player, min lastMessage room.conversation.messages.length, keyHash⟩
  let told := WatchStream.opening keyHash ++ next.1
  have found : opened.stream? room.nextWatch =
      some (.opened room.conversation id player lastMessage keyHash) := by
    rw [Room.stream?_watch, if_pos rfl]
  have read : opened.read room.nextWatch (size + 1) =
      (told, opened.updateStream room.nextWatch fun _ => next.2) := Room.read_head found rfl rfl 1
  have filled : told ≠ [] :=
    List.append_ne_nil_of_left_ne_nil (WatchStream.opening_ne_nil keyHash) next.1
  have short : told.length ≤ size + 1 := by
    rw [List.length_append]
    exact Nat.add_le_add_left (stream.length_read_le room.conversation 1) size
  have watched : Relay.step { room } (.watch id player lastMessage keyHash) =
      ⟨opened, [{ watch := room.nextWatch, viewer }]⟩ := if_pos inside
  have fetched : Pump.fetch opened { watch := room.nextWatch, viewer } (size + 1) =
      (opened.updateStream room.nextWatch fun _ => next.2,
        { watch := room.nextWatch, viewer, phase := .sending told }) := by
    rw [Pump.fetch_some (read ▸ filled), read]
  have sent : Pump.send { watch := room.nextWatch, viewer, phase := .sending told } told (size + 1) =
      { watch := room.nextWatch, viewer, written := told } := by
    rw [Pump.send, if_pos short, List.take_of_length_le short]
    rfl
  have asked : Relay.step ⟨opened, [{ watch := room.nextWatch, viewer }]⟩ (.pump 0 (.fetch size)) =
      ⟨opened.updateStream room.nextWatch fun _ => next.2,
        [{ watch := room.nextWatch, viewer, phase := .sending told }]⟩ := by
    show Relay.mk (Pump.fetch opened _ (size + 1)).1 [(Pump.fetch opened _ (size + 1)).2] = _
    rw [fetched]
  rw [Relay.run, List.foldl_cons, watched, List.foldl_cons, asked, List.foldl_cons, List.foldl_nil]
  show Relay.mk _ [Pump.send _ told (size + 1)] = _
  rw [sent]

/-- Ann watches her room, and Bob joins after her stream had nothing to say and before its task
waits: the task finds the notice, writes what is new and waits again. -/
theorem no_wakeup_lost_before_wait :
    let size := (WatchStream.opening none).length
    let passes : List RelayStep :=
      [.pump 0 (.fetch 4095), .pump 0 (.send 4095), .pump 0 (.fetch 0)]
    let relay := Relay.run { room := .ofBag ['A'] }
      ([.act (.join "Ann"), .watch 7 0 0 none, .pump 0 (.fetch size), .pump 0 (.send size)] ++
        (passes ++ [.act (.join "Bob"), .pump 0 .flush, .pump 0 .wake] ++ passes ++
          [.pump 0 .flush]))
    relay.isQuiet = true ∧ relay.pumps.length = 1 ∧
      ∀ pump ∈ relay.pumps, (pump.phase = .waiting ∧ relay.room.isNotified pump.watch = false) ∧
        relay.room.hasPending pump.watch = false ∧ ∃ told, pump.Delivered relay.room told := by
  intro size passes relay
  -- No step after these looks at the head of the stream, which takes long to evaluate.
  have opened : relay = Relay.run
      (Relay.run { room := ((Room.ofBag ['A']).act (.join "Ann")).2 }
        [.watch 7 0 0 none, .pump 0 (.fetch size), .pump 0 (.send size)])
      (passes ++ [.act (.join "Bob"), .pump 0 .flush, .pump 0 .wake] ++ passes ++
        [.pump 0 .flush]) := by
    unfold relay
    rw [Relay.run, List.foldl_append, List.foldl_cons]
    rfl
  rw [Relay.run_opening ((Room.ofBag ['A']).act (.join "Ann")).2 7 0 0 none (by decide)] at opened
  have quiet : relay.isQuiet = true := by
    rw [opened]
    decide +kernel
  have single : relay.pumps.length = 1 := by
    rw [opened]
    decide +kernel
  have resting : ∀ pump ∈ relay.pumps,
      pump.phase = .waiting ∧ relay.room.isNotified pump.watch = false := by
    rw [opened]
    decide +kernel
  refine ⟨quiet, single, fun pump member => ?_⟩
  obtain ⟨waiting, unnoticed⟩ := resting pump member
  have going : pump.phase ≠ .ended := by
    rw [waiting]
    decide
  exact ⟨⟨waiting, unnoticed⟩, (no_wakeup_lost ['A'] _).1 pump member waiting unnoticed,
    (no_wakeup_lost ['A'] _).2 quiet pump member going⟩

end TileRoom
