import TileRoom.Proofs.Following
import TileRoom.Proofs.Receiving

/-! A stream on the air. Changes of the room and reads of any size keep three things true
of it: its bytes spell out the frames it told, the messages among them are those of the
room in order, and a client that reads all of them is up to date but for the agenda. -/

namespace TileRoom

def Message.spaced (message : Message) : Message :=
  { message with text := spacedText message.text }

def Frame.name? : Frame → Option (Nat × String)
  | .playerName num name => some (num, name)
  | _ => none

/-- Frames told to a client who knew the first messages: the names and the messages
among them are those of the room, in order and once. -/
structure Recounts (room : Conversation) (agenda : Agenda) (first : Nat) (frames : List Frame) :
    Prop where
  names : frames.filterMap Frame.name? =
    (room.players.take agenda.namedPlayers).map fun player => (player.num, player.name)
  below : agenda.nextMessage ≤ room.messages.length
  messages : room.messages.take first ++ frames.filterMap Frame.message? =
    room.messages.take agenda.nextMessage

namespace Recounts

variable {room after : Conversation} {agenda later : Agenda} {first : Nat} {frames : List Frame}

theorem tells {frame : Frame} (recounts : Recounts room agenda first frames)
    (tells : Tells room agenda frame later) : Recounts room later first (frames ++ [frame]) := by
  obtain ⟨names, below, messages⟩ := recounts
  cases tells with
  | @name player unnamed =>
    refine ⟨?_, below, ?_⟩
    · rw [List.take_add_one, unnamed, List.map_append, ← names, List.filterMap_append]
      rfl
    · rw [List.filterMap_append, ← messages]
      exact congrArg _ (List.append_nil _)
  | @message message found =>
    refine ⟨?_, (List.getElem?_eq_some_iff.1 found).1, ?_⟩
    · rw [List.filterMap_append, ← names]
      exact List.append_nil _
    · rw [List.take_add_one, found, List.filterMap_append, ← List.append_assoc, messages]
      rfl
  | status | shout | tile | farewell =>
    refine ⟨?_, below, ?_⟩
    · rw [List.filterMap_append, ← names]
      exact List.append_nil _
    · rw [List.filterMap_append, ← messages]
      exact congrArg _ (List.append_nil _)

theorem recites {more : List Frame} (recounts : Recounts room agenda first frames)
    (recites : Recites room agenda more later) : Recounts room later first (frames ++ more) := by
  induction recites generalizing frames with
  | nil => rwa [List.append_nil]
  | cons tells _ ih =>
    have next := ih (recounts.tells tells)
    rwa [List.append_assoc] at next

theorem altered {changes : List Change} (recounts : Recounts room agenda first frames)
    (known : first ≤ room.messages.length) (named : agenda.namedPlayers ≤ room.players.length)
    (consistent : room.Consistent) (right : after.Consistent) (altered : room.Altered changes after)
    (noted : Noted agenda changes later) : Recounts after later first frames := by
  obtain ⟨added, grown⟩ := altered.messages
  have kept (count : Nat) (inside : count ≤ room.messages.length) :
      after.messages.take count = room.messages.take count := by
    rw [← grown, List.take_append_of_le_length inside]
  refine ⟨?_, ?_, ?_⟩
  · rw [recounts.names, noted.namedPlayers]
    apply List.ext_getElem?
    intro num
    rw [List.getElem?_map, List.getElem?_map, List.getElem?_take, List.getElem?_take]
    split
    · rename_i inside
      have there := List.getElem?_eq_getElem (Nat.lt_of_lt_of_le inside named)
      obtain ⟨next, found, name, _⟩ := altered.kept num _ there
      rw [there, found, Option.map_some, Option.map_some, name, consistent.numbered num _ there,
        right.numbered num next found]
    · rfl
  · rw [noted.nextMessage, ← grown, List.length_append]
    exact Nat.le_add_right_of_le recounts.below
  · rw [noted.nextMessage, kept first known, kept _ recounts.below, recounts.messages]

end Recounts

/-- What a stream was opened for: the key and the player it answers to, the messages the
client knew, and what it had seen of the room. -/
structure Airing where
  key : String
  id : PersonId
  player : Nat
  first : Nat
  before : View

namespace Airing

def opening (airing : Airing) : Bytes :=
  WatchStream.opening (some (Key.hash airing.key))

def header (airing : Airing) : Frame :=
  .header airing.player airing.id

def shown (airing : Airing) (frames : List Frame) : View :=
  (frames.map Frame.received).foldl View.learn (airing.before.learn airing.header)

end Airing

/-- A stream next to its room, after it told `frames` and wrote `written`. -/
structure Airs (airing : Airing) (room : Conversation) (stream : WatchStream) (covered : Nat → Prop)
    (frames : List Frame) (written : Bytes) : Prop where
  player : stream.player = airing.player
  inside : airing.player < room.players.length
  first : airing.first ≤ room.messages.length
  known : airing.before.Known room airing.player
  spelled : WatchStream.Spelled airing.opening (airing.header :: frames) written stream
  names : ∀ frame ∈ frames, frame.Names room
  recounts : Recounts room stream.agenda airing.first frames
  follows : Follows room stream.agenda covered airing.before (airing.shown frames)

namespace Airs

variable {airing : Airing} {room after : Conversation} {stream : WatchStream} {covered : Nat → Prop}
  {frames : List Frame} {written : Bytes}

theorem opened (consistent : room.Consistent) (inside : airing.player < room.players.length)
    (first : airing.first ≤ room.messages.length) (known : airing.before.Known room airing.player) :
    Airs airing room
      (.opened room airing.id airing.player airing.first (some (Key.hash airing.key)))
      (fun num => room.shouter? = some num) [] [] where
  player := rfl
  inside := inside
  first := first
  known := known
  spelled := WatchStream.spelled_opened room airing.id airing.player airing.first _
  names := by simp
  recounts := by
    have next : min airing.first room.messages.length = airing.first := Nat.min_eq_left first
    refine ⟨rfl, Nat.min_le_right _ _, ?_⟩
    change room.messages.take airing.first ++ [] =
      room.messages.take (min airing.first room.messages.length)
    rw [next, List.append_nil]
  follows := Follows.opened consistent airing.id airing.player airing.first _ known

theorem altered {changes : List Change} (airs : Airs airing room stream covered frames written)
    (consistent : room.Consistent) (right : after.Consistent) (altered : room.Altered changes after) :
    Airs airing after (changes.foldl WatchStream.note stream)
      (fun num => covered num ∨ after.shouter? = some num) frames written := by
  have noted := WatchStream.noted_foldl changes stream
  exact {
    player := noted.player.trans airs.player
    inside := Nat.lt_of_lt_of_le airs.inside altered.players_le
    first := Nat.le_trans airs.first altered.messages.length_le
    known := airs.known.mono altered.players_le altered.turned
    spelled := airs.spelled.note changes
    names := fun frame member => (airs.names frame member).mono altered.players_le altered.turned
    recounts := airs.recounts.altered airs.first airs.follows.namedPlayers consistent right altered noted
    follows := airs.follows.altered right altered noted }

theorem read (airs : Airs airing room stream covered frames written) (consistent : room.Consistent)
    (size : Nat) :
    ∃ more, Airs airing room (stream.read room size).2 covered (frames ++ more)
      (written ++ (stream.read room size).1) := by
  obtain ⟨more, told, spelled⟩ := WatchStream.read_spelled room size stream airs.spelled
  obtain ⟨names, follows⟩ := airs.follows.recites consistent told
  have player : (stream.read room size).2.player = stream.player := told.player
  refine ⟨more, player.trans airs.player, airs.inside, airs.first, airs.known, spelled, ?_,
    airs.recounts.recites told, ?_⟩
  · intro frame member
    exact (List.mem_append.1 member).elim (airs.names frame) (names frame)
  · rw [Airing.shown, List.map_append, List.foldl_append]
    exact follows

end Airs

end TileRoom
