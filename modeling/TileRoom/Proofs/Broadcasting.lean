import TileRoom.Proofs.Draining
import TileRoom.Proofs.Hearing

/-! A stream of a room on the air. It stays on the air whatever happens in the room and
however it is read, and once it is drained a client that heard all of it shows the room. -/

namespace TileRoom

theorem View.known_nothing (room : Conversation) (player : Nat) : ({} : View).Known room player where
  records := List.length_replicate
  nobody num record _ found := by
    rw [List.getElem?_replicate] at found
    split at found
    · exact (Option.some.inj found).symm
    · cases found
  self := Or.inl rfl
  fresh _ := rfl
  shout := rfl
  shown num shouter := nomatch shouter
  beyond num _ := rfl

theorem View.showsShout_nothing (num : Nat) : ({} : View).showsShout num = false := by
  rw [showsShout, List.getElem?_replicate]
  split <;> rfl

/-- The view of a client that heard all of a drained stream shows the room; whoever it
showed shouting when the stream began must have shouted since to be shown right. -/
theorem Airs.mirrored {airing : Airing} {room : Conversation} {stream : WatchStream}
    {covered : Nat → Prop} {frames : List Frame} {written : Bytes}
    (airs : Airs airing room stream covered frames written) (drained : stream.Drained room)
    (few : room.tiles.length ≤ 128) :
    (airing.shown frames).Mirrors room airing.player ∧
      ((airing.shown frames).MirrorsShout room airing.player ↔
        ∀ num, airing.before.showsShout num = true → covered num) := by
  have mirrors := airs.follows.mirrors drained few
  have shout := airs.follows.mirrorsShout drained
  rw [airs.player] at mirrors shout
  exact ⟨mirrors, shout⟩

namespace Room

def isDrained (room : Room) (watch : WatchId) : Bool :=
  (room.stream? watch).any fun stream => !stream.isFinished && !stream.hasPending room.conversation

/-- A stream on the air in a room where all is in order. -/
structure Broadcasts (room : Room) (watch : WatchId) (airing : Airing) (covered : Nat → Prop)
    (frames : List Frame) (written : Bytes) : Prop where
  wired : room.Wired
  consistent : room.conversation.Consistent
  airs : ∃ stream, room.stream? watch = some stream ∧
    Airs airing room.conversation stream covered frames written

variable {room : Room} {watch : WatchId} {airing : Airing} {covered : Nat → Prop} {frames : List Frame}
  {written : Bytes}

theorem drained_of_isDrained {stream : WatchStream} (found : room.stream? watch = some stream)
    (drained : room.isDrained watch = true) : stream.Drained room.conversation := by
  rw [isDrained, found, Option.any_some, Bool.and_eq_true, Bool.not_eq_true', Bool.not_eq_true'] at drained
  exact WatchStream.drained_of_idle drained.1 drained.2

theorem Broadcasts.turns {later : Room} {kept : WatchId → Prop}
    (broadcasts : room.Broadcasts watch airing covered frames written) (turns : room.Turns kept later)
    (keeps : kept watch) : later.Broadcasts watch airing
      (fun num => covered num ∨ later.conversation.shouter? = some num) frames written := by
  obtain ⟨stream, found, airs⟩ := broadcasts.airs
  obtain ⟨changes, altered, streams⟩ := turns.altered
  exact ⟨turns.wired, turns.consistent, _, streams watch stream keeps found,
    airs.altered broadcasts.consistent turns.consistent altered⟩

theorem Broadcasts.read (broadcasts : room.Broadcasts watch airing covered frames written) (size : Nat) :
    ∃ more, (room.read watch size).2.Broadcasts watch airing covered (frames ++ more)
      (written ++ (room.read watch size).1) := by
  obtain ⟨stream, found, airs⟩ := broadcasts.airs
  obtain ⟨bytes, next, conversation⟩ := read_some found size
  obtain ⟨more, later⟩ := airs.read broadcasts.consistent size
  refine ⟨more, wired_read broadcasts.wired watch size, ?_, _, next, ?_⟩
  · rw [conversation]
    exact broadcasts.consistent
  · rw [conversation, bytes]
    exact later

theorem broadcasts_watch (airing : Airing) (wired : room.Wired) (consistent : room.conversation.Consistent)
    (inside : airing.player < room.conversation.players.length)
    (first : airing.first ≤ room.conversation.messages.length)
    (known : airing.before.Known room.conversation airing.player) :
    let opened := room.watch airing.id airing.player airing.first (some (Key.hash airing.key))
    opened.2.Broadcasts opened.1 airing (fun num => room.conversation.shouter? = some num) [] [] := by
  refine ⟨wired_watch wired _ _ _ _, consistent, _, ?_, .opened consistent inside first known⟩
  rw [stream?_watch]
  exact if_pos rfl

end Room

end TileRoom
