import TileRoom.Conversation.Basic
import TileRoom.IndexSet
import TileRoom.Response.Reply

/-! The stream that tells one person what happens in a room. It keeps what was not
told yet as sets of indices and chooses the next frame only when there is room for
a byte of it, so what it writes does not depend on the buffers it writes into. -/

namespace TileRoom

inductive WatchPhase where
  | head
  | frame
  | waiting
  | farewell
  | done
deriving DecidableEq

structure WatchStream where
  phase : WatchPhase := .head
  pos : Nat := 0
  head : Bytes
  current : Frame
  player : Nat
  namedPlayers : Nat := 0
  nextMessage : Nat
  players : IndexSet 64
  shouts : IndexSet 64
  tiles : IndexSet 128
  /-- Whether a change was signalled and not yet taken notice of. -/
  notified : Bool := false
deriving DecidableEq

inductive NextFrame where
  | name (num : Nat)
  | status (num : Nat)
  | message (index : Nat)
  | shout (player : Nat)
  | tile (num : Nat)
  | farewell
deriving DecidableEq

namespace WatchStream

def watchHeaders : String :=
  "Content-Type: text/plain; charset=UTF-8\r\nTransfer-Encoding: chunked\r\n"

def opening (keyHash : Option Key.Hash) : Bytes :=
  Utf8.encode (ResponseHead.render "200 OK" keyHash watchHeaders.toList) ++
    Frame.paddingTexts.flatMap fun text => Chunk.frame (bytesOf text)

/-- A stream for a player of a room who knows the messages before `lastMessage`.
Everything that stands in the room already is still to be told. -/
def opened (room : Conversation) (id : PersonId) (player lastMessage : Nat)
    (keyHash : Option Key.Hash) : WatchStream :=
  { head := opening keyHash
    current := .header player id
    player
    nextMessage := min lastMessage room.messages.length
    players := IndexSet.empty.insertBelow room.players.length
    shouts := room.shouter?.elim IndexSet.empty IndexSet.empty.insert
    tiles := IndexSet.empty.insertBelow room.tiles.length }

def note (stream : WatchStream) (change : Change) : WatchStream :=
  let stream := { stream with notified := true }
  match change with
  | .started | .messageAdded => stream
  | .tile num => { stream with tiles := stream.tiles.insert num }
  | .shouting player => { stream with shouts := stream.shouts.insert player }
  | .player num => { stream with players := stream.players.insert num }

/-- The frame to write next: names before statuses before messages before shouts
before tiles, lower numbers first, and the farewell once the player has left. -/
def nextFrame? (stream : WatchStream) (room : Conversation) : Option NextFrame :=
  if stream.namedPlayers < room.players.length then some (.name stream.namedPlayers)
  else
    match stream.players.first?.filter (· < room.players.length) with
    | some num => some (.status num)
    | none =>
        if stream.nextMessage < room.messages.length then some (.message stream.nextMessage)
        else
          match stream.shouts.first? with
          | some player => some (.shout player)
          | none =>
              match stream.tiles.first?.filter (· < room.tiles.length) with
              | some num => some (.tile num)
              | none => if room.isConnected stream.player then none else some .farewell

def beginFrame (stream : WatchStream) (frame : Frame) : WatchStream :=
  { stream with phase := .frame, pos := 0, current := frame }

/-- Takes what is told off the sets of things to tell and starts to write it. An
index that names nothing in the room has no frame. -/
def choose (stream : WatchStream) (room : Conversation) : NextFrame → Option WatchStream
  | .name num => (room.players[num]?).map fun player =>
      { stream with namedPlayers := stream.namedPlayers + 1 }.beginFrame player.nameFrame
  | .status num => (room.players[num]?).map fun player =>
      { stream with players := stream.players.erase num }.beginFrame player.statusFrame
  | .message index => (room.messages[index]?).map fun message =>
      { stream with nextMessage := stream.nextMessage + 1 }.beginFrame message.frame
  | .shout player =>
      some ({ stream with shouts := stream.shouts.erase player }.beginFrame
        (.shout player (room.shouter? = some player)))
  | .tile num => (room.tiles[num]?).map fun tile =>
      { stream with tiles := stream.tiles.erase num }.beginFrame tile.frame
  | .farewell => some { stream with phase := .farewell, pos := 0 }

def select? (stream : WatchStream) (room : Conversation) : Option WatchStream :=
  (stream.nextFrame? room).bind (stream.choose room)

/-- How many rounds the phase of a stream may still take without filling a buffer. -/
def rank (stream : WatchStream) : Nat :=
  match stream.phase with
  | .head => 4
  | .frame => if stream.pos < (Chunk.frame stream.current.payload).length then 1 else 3
  | .waiting => 2
  | .farewell => 1
  | .done => 0

theorem frame_nonempty (payload : Bytes) : 0 < (Chunk.frame payload).length := by
  simp [Chunk.frame_length]

theorem rank_beginFrame (stream : WatchStream) (frame : Frame) :
    (stream.beginFrame frame).rank = 1 := by
  simp [rank, beginFrame, frame_nonempty]

theorem rank_choose {stream next : WatchStream} {room : Conversation} {frame : NextFrame}
    (chosen : stream.choose room frame = some next) : next.rank = 1 := by
  cases frame with
  | name | status | message | tile =>
    obtain ⟨_, _, rfl⟩ := Option.map_eq_some_iff.1 chosen
    exact rank_beginFrame _ _
  | shout =>
    obtain rfl := Option.some.inj chosen
    exact rank_beginFrame _ _
  | farewell =>
    obtain rfl := Option.some.inj chosen
    rfl

theorem rank_select {stream next : WatchStream} {room : Conversation}
    (chosen : stream.select? room = some next) : next.rank = 1 := by
  obtain ⟨frame, _, made⟩ := Option.bind_eq_some_iff.1 chosen
  exact rank_choose made

def fill (room : Conversation) (out : OutBuf) (stream : WatchStream) : OutBuf × WatchStream :=
  match _phase : stream.phase with
  | .head =>
      let written := out.write stream.pos stream.head
      if written.done then fill room written.out { stream with phase := .frame, pos := 0 }
      else (written.out, { stream with pos := written.pos })
  | .frame =>
      let written := out.writeChunk stream.pos stream.current.payload
      if _done : written.done then
        fill room written.out { stream with phase := .waiting, pos := 0 }
      else (written.out, { stream with pos := written.pos })
  | .waiting =>
      if out.isFull then (out, stream)
      else
        match _chosen : stream.select? room with
        | some next => fill room out next
        | none => (out, stream)
  | .farewell =>
      let written := out.write stream.pos Chunk.farewell
      if written.done then (written.out, { stream with phase := .done, pos := 0 })
      else (written.out, { stream with pos := written.pos })
  | .done => (out, stream)
termination_by 5 * out.remaining + stream.rank
decreasing_by
  · have less := out.remaining_write_le stream.pos stream.head
    simp only [rank, _phase, frame_nonempty, if_true]
    omega
  · simp only [rank, _phase]
    split
    · rename_i unfinished
      have less := out.remaining_writeChunk_lt stream.pos stream.current.payload unfinished _done
      omega
    · have less := out.remaining_writeChunk_le stream.pos stream.current.payload
      omega
  · have here : stream.rank = 2 := by simp [rank, _phase]
    have there := rank_select _chosen
    omega

def read (stream : WatchStream) (room : Conversation) (size : Nat) : Bytes × WatchStream :=
  let (out, stream) := fill room (OutBuf.empty size) stream
  (out.bytes, stream)

def isFinished (stream : WatchStream) : Bool :=
  stream.phase = .done

def hasPending (stream : WatchStream) (room : Conversation) : Bool :=
  match stream.phase with
  | .waiting => (stream.nextFrame? room).isSome
  | .done => false
  | _ => true

end WatchStream

end TileRoom
