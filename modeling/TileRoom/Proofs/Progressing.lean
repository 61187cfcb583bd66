import TileRoom.Proofs.Resting

/-! Streams make progress. In every room that can come about, what a stream is writing has bytes
left, so a read gives bytes exactly when there is something to say. A read ends after a number of
rounds known beforehand and looks up only what is in the room. As long as nothing happens there,
so many reads bring a stream to its end, or to where it has nothing to say. -/

namespace TileRoom

namespace WatchStream

variable {room : Conversation} {stream next : WatchStream}

def Underway (stream : WatchStream) : Prop :=
  ∀ message, stream.message? = some message → stream.pos < message.length

theorem underway_opened (room : Conversation) (id : PersonId) (player lastMessage : Nat)
    (keyHash : Option Key.Hash) : (opened room id player lastMessage keyHash).Underway := by
  intro message said
  obtain rfl : opening keyHash = message := Option.some.inj said
  exact List.length_pos_iff.2 (opening_ne_nil keyHash)

theorem Underway.note (underway : stream.Underway) (changes : List Change) :
    (changes.foldl WatchStream.note stream).Underway := by
  induction changes generalizing stream with
  | nil => exact underway
  | cons change rest ih =>
    apply ih
    cases change <;> exact underway

theorem underway_settled (stream : WatchStream) : stream.settled.Underway := by
  intro message said
  unfold settled at said ⊢
  split at said <;> rename_i phase <;> simp only [message?, phase, reduceCtorEq] at said
  obtain rfl := Option.some.inj said
  exact frame_nonempty _

theorem begun_select (chosen : stream.select? room = some next) :
    ∃ message, next.message? = some message ∧ next.pos < message.length := by
  have begun (stream : WatchStream) (frame : Frame) : ∃ message,
      (stream.beginFrame frame).message? = some message ∧ (stream.beginFrame frame).pos < message.length :=
    ⟨Chunk.frame frame.payload, rfl, frame_nonempty frame.payload⟩
  obtain ⟨wanted, _, made⟩ := Option.bind_eq_some_iff.1 chosen
  cases wanted with
  | name | status | message | tile =>
    obtain ⟨_, _, rfl⟩ := Option.map_eq_some_iff.1 made
    exact begun _ _
  | shout =>
    obtain rfl := Option.some.inj made
    exact begun _ _
  | farewell =>
    obtain rfl := Option.some.inj made
    refine ⟨Chunk.farewell, rfl, List.length_pos_iff.2 ?_⟩
    exact List.append_ne_nil_of_left_ne_nil (List.length_pos_iff.1 (frame_nonempty _)) _

theorem Underway.read (underway : stream.Underway) (room : Conversation) (size : Nat) :
    (stream.read room size).2.Underway := by
  induction size, stream using reading_induction room with
  | writing size stream message said ih =>
    rw [read_writing room stream size message said]
    by_cases fits : message.length ≤ stream.pos + size
    · rw [if_pos fits]
      exact ih fits (underway_settled stream)
    · rw [if_neg fits]
      intro other same
      obtain rfl : message = other := Option.some.inj (said.symm.trans same)
      exact Nat.lt_of_not_le fits
  | waiting size stream phase ih =>
    rw [read_waiting room stream size phase]
    by_cases full : size = 0
    · rw [if_pos full]
      exact underway
    · rw [if_neg full]
      cases chosen : stream.select? room with
      | none => exact underway
      | some next =>
        obtain ⟨message, said, left⟩ := begun_select chosen
        refine ih next chosen fun other same => ?_
        obtain rfl : message = other := Option.some.inj (said.symm.trans same)
        exact left
  | done size stream phase =>
    rw [read_done room stream size phase]
    exact underway

theorem read_ne_nil {message : Bytes} {size : Nat} (said : stream.message? = some message)
    (left : stream.pos < message.length) (space : 0 < size) : (stream.read room size).1 ≠ [] := by
  rw [read_writing room stream size message said]
  apply List.length_pos_iff.1
  by_cases fits : message.length ≤ stream.pos + size
  · rw [if_pos fits, List.length_append, List.length_drop]
    omega
  · rw [if_neg fits, List.length_take, List.length_drop]
    omega

theorem Underway.read_ne_nil_iff {size : Nat} (underway : stream.Underway) (space : 0 < size) :
    (stream.read room size).1 ≠ [] ↔ stream.hasPending room = true := by
  cases phase : stream.phase with
  | head | frame | farewell =>
    rw [hasPending, phase]
    refine iff_of_true ?_ rfl
    have said : stream.message?.isSome = true := by
      rw [message?, phase]
      rfl
    obtain ⟨message, said⟩ := Option.isSome_iff_exists.1 said
    exact read_ne_nil said (underway message said) space
  | waiting =>
    rw [hasPending, phase, read_waiting room stream size phase, if_neg (Nat.ne_of_gt space)]
    cases wanted : stream.nextFrame? room with
    | none =>
      rw [select?, wanted]
      exact iff_of_false (· rfl) Bool.false_ne_true
    | some frame =>
      obtain ⟨next, made⟩ := Option.isSome_iff_exists.1 (choose_isSome wanted)
      have chosen : stream.select? room = some next := by rw [select?, wanted, Option.bind_some, made]
      obtain ⟨message, said, left⟩ := begun_select chosen
      rw [chosen]
      exact iff_of_true (read_ne_nil said left space) rfl
  | done =>
    rw [hasPending, phase, read_done room stream size phase]
    exact iff_of_false (· rfl) Bool.false_ne_true

theorem read_idle (idle : stream.hasPending room = false) (size : Nat) : stream.read room size = ([], stream) := by
  cases ended : stream.isFinished with
  | false => exact read_quiet idle ended size
  | true => exact read_done room stream size (of_decide_eq_true ended)

/-- What a stream writes into a buffer in so many rounds of its loop. It fails when the rounds
run out, and when the frame to write next is about something that is not in the room. -/
def tryFill (room : Conversation) : Nat → OutBuf → WatchStream → Option (OutBuf × WatchStream)
  | 0, _, _ => none
  | rounds + 1, out, stream =>
      match stream.phase with
      | .head =>
          let written := out.write stream.pos stream.head
          if written.done then tryFill room rounds written.out { stream with phase := .frame, pos := 0 }
          else some (written.out, { stream with pos := written.pos })
      | .frame =>
          let written := out.writeChunk stream.pos stream.current.payload
          if written.done then tryFill room rounds written.out { stream with phase := .waiting, pos := 0 }
          else some (written.out, { stream with pos := written.pos })
      | .waiting =>
          if out.isFull then some (out, stream)
          else
            match stream.nextFrame? room with
            | none => some (out, stream)
            | some wanted => (stream.choose room wanted).bind (tryFill room rounds out)
      | .farewell =>
          let written := out.write stream.pos Chunk.farewell
          if written.done then tryFill room rounds written.out { stream with phase := .done, pos := 0 }
          else some (written.out, { stream with pos := written.pos })
      | .done => some (out, stream)

theorem tryFill_writing (room : Conversation) (rounds : Nat) (out : OutBuf) (stream : WatchStream)
    (message : Bytes) (said : stream.message? = some message) :
    tryFill room (rounds + 1) out stream =
      if message.length ≤ stream.pos + out.remaining then
        tryFill room rounds (out.push (message.drop stream.pos)).2 stream.settled
      else some ((out.push (message.drop stream.pos)).2, stream.advance out.remaining) := by
  by_cases fits : message.length ≤ stream.pos + out.remaining
  · rw [if_pos fits]
    unfold message? at said
    split at said <;> rename_i phase <;> cases said <;>
      simp only [tryFill, phase, OutBuf.writeChunk_eq, OutBuf.write_eq, settled, decide_eq_true fits, if_true]
  · have short : min (message.length - stream.pos) out.remaining = out.remaining := by omega
    rw [if_neg fits]
    unfold message? at said
    split at said <;> rename_i phase <;> cases said <;>
      simp only [tryFill, phase, OutBuf.writeChunk_eq, OutBuf.write_eq, short, decide_eq_false fits,
        Bool.false_eq_true, if_false, advance]

theorem tryFill_eq_fill (room : Conversation) (rounds : Nat) (out : OutBuf) (stream : WatchStream)
    (enough : 5 * out.remaining + stream.rank < rounds) :
    tryFill room rounds out stream = some (fill room out stream) := by
  induction rounds generalizing out stream with
  | zero => exact absurd enough (Nat.not_lt_zero _)
  | succ rounds ih =>
    cases said : stream.message? with
    | some message =>
      rw [tryFill_writing room rounds out stream message said, fill_writing room out stream message said]
      by_cases fits : message.length ≤ stream.pos + out.remaining
      · have less := rank_settled stream message out.remaining said fits
        rw [if_pos fits, if_pos fits]
        apply ih
        rw [OutBuf.remaining_push_eq, List.length_drop]
        omega
      · rw [if_neg fits, if_neg fits]
    | none =>
      rcases (message?_eq_none_iff stream).1 said with phase | phase
      · have here : stream.rank = 2 := by simp only [rank, phase]
        rw [fill_waiting room out stream phase, select?]
        simp only [tryFill, phase, OutBuf.isFull, decide_eq_true_eq]
        by_cases full : out.remaining = 0
        · rw [if_pos full, if_pos full]
        · rw [if_neg full, if_neg full]
          cases wanted : stream.nextFrame? room with
          | none => rfl
          | some frame =>
            obtain ⟨next, made⟩ := Option.isSome_iff_exists.1 (choose_isSome wanted)
            have there := rank_choose made
            simp only [Option.bind_some, made, Option.elim_some]
            apply ih
            omega
      · rw [fill_done room out stream phase]
        simp only [tryFill, phase]

def tryRead (stream : WatchStream) (room : Conversation) (size rounds : Nat) : Option (Bytes × WatchStream) :=
  (tryFill room rounds (OutBuf.empty size) stream).map fun filled => (filled.1.bytes, filled.2)

theorem tryRead_eq_read (room : Conversation) (stream : WatchStream) (size : Nat) :
    stream.tryRead room size (5 * size + 5) = some (stream.read room size) := by
  have low : stream.rank ≤ 4 := by
    unfold rank
    split <;> first | decide | (split <;> decide)
  have enough : 5 * (OutBuf.empty size).remaining + stream.rank < 5 * size + 5 := by
    rw [remaining_empty]
    omega
  rw [tryRead, tryFill_eq_fill room _ _ stream enough]
  rfl

end WatchStream

namespace Room

variable {room : Room} {watch : WatchId} {stream : WatchStream}

def moveAll (room : Room) (moves : List RoomMove) : Room :=
  moves.foldl move room

structure Underway (room : Room) : Prop where
  wired : room.Wired
  streams : ∀ watch stream, room.stream? watch = some stream → stream.Underway

theorem underway_ofBag (bag : List Char) : (ofBag bag).Underway :=
  ⟨wired_ofConversation _, fun _ _ found => by cases found⟩

theorem Underway.updateStream (underway : room.Underway) (f : WatchStream → WatchStream)
    (keeps : ∀ stream, room.stream? watch = some stream → (f stream).Underway) :
    (room.updateStream watch f).Underway := by
  refine ⟨wired_updateStream underway.wired watch f, fun other stream found => ?_⟩
  rw [stream?_updateStream] at found
  split at found
  next here =>
    obtain ⟨before, there, rfl⟩ := Option.map_eq_some_iff.1 found
    exact keeps before (here ▸ there)
  next => exact underway.streams other stream found

theorem stream?_unwatch_self (room : Room) (watch : WatchId) : (room.unwatch watch).2.stream? watch = none := by
  unfold unwatch
  cases found : room.watches.find? watch with
  | none =>
    show room.stream? watch = none
    rw [stream?, found, Option.map_none]
  | some entry =>
    show ((room.watches.erase watch).find? watch).map (·.stream) = none
    rw [Table.find?_erase, if_pos rfl, Option.map_none]

theorem Underway.move (underway : room.Underway) (move : RoomMove) : (room.move move).Underway := by
  have wired := underway.wired
  cases move with
  | act action =>
    refine ⟨wired_act wired action, fun watch stream found => ?_⟩
    rw [Room.move, stream?_act wired] at found
    obtain ⟨before, there, rfl⟩ := Option.map_eq_some_iff.1 found
    exact (underway.streams watch before there).note _
  | watch id player lastMessage keyHash =>
    refine ⟨wired_watch wired id player lastMessage keyHash, fun watch stream found => ?_⟩
    rw [Room.move, stream?_watch] at found
    split at found
    next =>
      obtain rfl := Option.some.inj found
      exact WatchStream.underway_opened room.conversation id player lastMessage keyHash
    next => exact underway.streams watch stream found
  | unwatch watch =>
    refine ⟨wired_unwatch wired watch, fun other stream found => ?_⟩
    rw [Room.move] at found
    by_cases same : watch = other
    · rw [← same, stream?_unwatch_self] at found
      cases found
    · rw [(stream?_unwatch room watch other same).1] at found
      exact underway.streams other stream found
  | read watch size =>
    rw [Room.move, Room.read]
    cases found : room.stream? watch with
    | none => exact underway
    | some stream => exact underway.updateStream _ fun _ _ => (underway.streams watch stream found).read _ size
  | takeNotice watch => exact underway.updateStream ({ · with notified := false }) (underway.streams watch)

theorem Underway.moveAll (underway : room.Underway) (moves : List RoomMove) : (room.moveAll moves).Underway := by
  induction moves generalizing room with
  | nil => exact underway
  | cons move rest ih => exact ih (underway.move move)

theorem read_none (none : room.stream? watch = none) (size : Nat) : room.read watch size = ([], room) := by
  rw [read, none]

theorem hasPending_none (none : room.stream? watch = none) : room.hasPending watch = false := by
  rw [hasPending, none]
  rfl

theorem hasPending_some (found : room.stream? watch = some stream) :
    room.hasPending watch = stream.hasPending room.conversation := by
  rw [hasPending, found]
  rfl

/-- A read in so many rounds of the stream's loop. It fails when the rounds run out, and when the
stream looks up something that is not in the room. -/
def tryRead (room : Room) (watch : WatchId) (size rounds : Nat) : Option (Bytes × Room) :=
  match room.stream? watch with
  | none => some ([], room)
  | some stream =>
      (stream.tryRead room.conversation size rounds).map fun found =>
        (found.1, room.updateStream watch fun _ => found.2)

def readOn (room : Room) (watch : WatchId) (sizes : Nat → Nat) : Nat → Room
  | 0 => room
  | calls + 1 => (room.read watch (sizes 0)).2.readOn watch (fun call => sizes (call + 1)) calls

theorem tryRead_eq_read (room : Room) (watch : WatchId) (size : Nat) :
    room.tryRead watch size (5 * size + 5) = some (room.read watch size) := by
  rw [tryRead, read]
  cases room.stream? watch with
  | none => rfl
  | some stream =>
    simp only [WatchStream.tryRead_eq_read]
    rfl

theorem length_read_le (room : Room) (watch : WatchId) (size : Nat) : (room.read watch size).1.length ≤ size := by
  cases found : room.stream? watch with
  | none =>
    rw [read_none found]
    exact Nat.zero_le size
  | some stream =>
    rw [(read_some found size).1]
    exact stream.length_read_le room.conversation size

theorem Underway.read_ne_nil_iff (underway : room.Underway) (watch : WatchId) {size : Nat} (space : 0 < size) :
    (room.read watch size).1 ≠ [] ↔ room.hasPending watch = true := by
  cases found : room.stream? watch with
  | none =>
    rw [read_none found, hasPending_none found]
    exact iff_of_false (· rfl) Bool.false_ne_true
  | some stream =>
    rw [(read_some found size).1, hasPending_some found]
    exact (underway.streams watch stream found).read_ne_nil_iff space

theorem hasPending_of_read_nil {size : Nat} (space : 0 < size) (empty : (room.read watch size).1 = []) :
    (room.read watch size).2.hasPending watch = false := by
  cases found : room.stream? watch with
  | none =>
    rw [read_none found]
    exact hasPending_none found
  | some stream =>
    obtain ⟨bytes, after, quiet⟩ := read_some found size
    rw [hasPending_some after, quiet]
    exact WatchStream.hasPending_of_read_nil space (bytes.symm.trans empty)

theorem read_idle (idle : room.hasPending watch = false) (size : Nat) :
    (room.read watch size).1 = [] ∧ (room.read watch size).2.hasPending watch = false := by
  cases found : room.stream? watch with
  | none =>
    rw [read_none found]
    exact ⟨rfl, idle⟩
  | some stream =>
    rw [hasPending_some found] at idle
    obtain ⟨bytes, after, quiet⟩ := read_some found size
    rw [WatchStream.read_idle idle] at bytes after
    rw [hasPending_some after, quiet]
    exact ⟨bytes, idle⟩

theorem readOn_idle (idle : room.hasPending watch = false) (sizes : Nat → Nat) (calls : Nat) :
    (room.readOn watch sizes calls).hasPending watch = false := by
  induction calls generalizing room sizes with
  | zero => exact idle
  | succ calls ih => exact ih (read_idle idle (sizes 0)).2 _

theorem read_add (room : Room) (watch : WatchId) (first second : Nat) :
    (room.read watch (first + second)).1 =
      (room.read watch first).1 ++ ((room.read watch first).2.read watch second).1 := by
  cases found : room.stream? watch with
  | none => rw [read_none found, read_none found, read_none found, List.append_nil]
  | some stream =>
    obtain ⟨bytes, after, quiet⟩ := read_some found first
    rw [(read_some found _).1, bytes, (read_some after second).1, quiet, WatchStream.read_add]

/-- What a stream has to say is bounded while nothing happens in its room. -/
theorem exists_bound (room : Room) (watch : WatchId) :
    ∃ count, ∀ size, (room.read watch size).1.length ≤ count := by
  cases found : room.stream? watch with
  | none =>
    refine ⟨0, fun size => ?_⟩
    rw [read_none found]
    exact Nat.le_refl 0
  | some stream =>
    obtain ⟨count, bound⟩ := stream.exists_bound room.conversation
    refine ⟨count, fun size => ?_⟩
    rw [(read_some found size).1]
    exact bound size

theorem readOn_drains {count : Nat} (bounded : ∀ size, (room.read watch size).1.length ≤ count)
    {sizes : Nat → Nat} (space : ∀ call, 0 < sizes call) {calls : Nat} (enough : count < calls) :
    (room.readOn watch sizes calls).hasPending watch = false := by
  induction calls generalizing room sizes count with
  | zero => exact absurd enough (Nat.not_lt_zero count)
  | succ calls ih =>
    by_cases empty : (room.read watch (sizes 0)).1 = []
    · exact readOn_idle (hasPending_of_read_nil (space 0) empty) _ calls
    · -- The first read took a byte at least, so the others have one less to give.
      have some := List.length_pos_iff.2 empty
      have first := bounded (sizes 0)
      have rest (size : Nat) : ((room.read watch (sizes 0)).2.read watch size).1.length ≤ count - 1 := by
        have both := bounded (sizes 0 + size)
        rw [read_add, List.length_append] at both
        omega
      apply ih rest fun call => space (call + 1)
      omega

structure Progresses (room : Room) (watch : WatchId) : Prop where
  ends : ∀ size, room.tryRead watch size (5 * size + 5) = some (room.read watch size)
  bounded : ∀ size, (room.read watch size).1.length ≤ size
  pending : ∀ size, 0 < size → ((room.read watch size).1 ≠ [] ↔ room.hasPending watch = true)
  drains : ∃ calls, ∀ sizes : Nat → Nat, (∀ call, 0 < sizes call) → ∀ later, calls ≤ later →
    ((room.readOn watch sizes later).read watch (sizes later)).1 = [] ∧
      (room.readOn watch sizes later).hasPending watch = false

/-- Every stream of every room that can come about makes progress. -/
theorem every_stream_progresses (bag : List Char) (moves : List RoomMove) (watch : WatchId) :
    ((ofBag bag).moveAll moves).Progresses watch := by
  have underway := (underway_ofBag bag).moveAll moves
  generalize (ofBag bag).moveAll moves = room at underway
  obtain ⟨count, bound⟩ := room.exists_bound watch
  refine ⟨room.tryRead_eq_read watch, room.length_read_le watch, fun size => underway.read_ne_nil_iff watch,
    count + 1, fun sizes space later enough => ?_⟩
  have idle := readOn_drains bound space enough
  exact ⟨(read_idle idle (sizes later)).1, idle⟩

/-- A stream that was just opened gives bytes, and at last there is nothing to say. -/
theorem opened_stream_progresses :
    let room := (ofBag ['A']).moveAll [.act (.join "ann"), .watch 7 0 0 none]
    room.hasPending 0 = true ∧ (room.read 0 1).1 ≠ [] ∧
      ∃ calls, (room.readOn 0 (fun _ => 1) calls).hasPending 0 = false := by
  intro room
  have pending : room.hasPending 0 = true := by rfl
  have progresses := every_stream_progresses ['A'] [.act (.join "ann"), .watch 7 0 0 none] 0
  obtain ⟨calls, drained⟩ := progresses.drains
  exact ⟨pending, (progresses.pending 1 Nat.one_pos).2 pending, calls,
    (drained (fun _ => 1) (fun _ => Nat.one_pos) calls (Nat.le_refl calls)).2⟩

end Room

end TileRoom
