import TileRoom.Proofs.Draining
import TileRoom.Proofs.Wiring

/-! What makes a stream be noticed. An operation that changes a room in any way gives out a
change, and every change leaves a notice at every stream; an operation without changes leaves
the room as it was. So a stream that was found with nothing to say has a notice, or still has
nothing to say. -/

namespace TileRoom

namespace Conversation

theorem act_silent {room : Conversation} {action : Action} (silent : (room.act action).changes = []) :
    (room.act action).after = room := by
  have none : (room.act action).notices = [] := List.map_eq_nil_iff.1 silent
  have effect := effect_act room action
  rw [none] at effect
  generalize (room.act action).after = after at effect
  cases effect with
  | nothing => rfl

end Conversation

namespace WatchStream

theorem notified_note (stream : WatchStream) (change : Change) : (stream.note change).notified = true := by
  cases change <;> rfl

theorem notified_foldl_note (changes : List Change) (stream : WatchStream) :
    (changes.foldl note stream).notified = (stream.notified || !changes.isEmpty) := by
  induction changes generalizing stream with
  | nil => exact (Bool.or_false _).symm
  | cons change rest ih =>
    rw [List.foldl_cons, ih, notified_note]
    exact (Bool.or_true _).symm

theorem hasPending_of_read_nil {room : Conversation} {size : Nat} {stream : WatchStream}
    (space : 0 < size) (empty : (stream.read room size).1 = []) :
    (stream.read room size).2.hasPending room = false := by
  induction size, stream using reading_induction room with
  | writing size stream message said ih =>
    rw [read_writing room stream size message said] at empty ⊢
    by_cases fits : message.length ≤ stream.pos + size
    · rw [if_pos fits] at empty ⊢
      obtain ⟨written, rest⟩ := List.append_eq_nil_iff.1 empty
      have past : message.length ≤ stream.pos := List.drop_eq_nil_iff.1 written
      apply ih fits _ rest
      omega
    · rw [if_neg fits] at empty
      have short := congrArg List.length empty
      rw [List.length_take, List.length_drop, List.length_nil] at short
      omega
  | waiting size stream phase ih =>
    rw [read_waiting room stream size phase, if_neg (Nat.ne_of_gt space)] at empty ⊢
    cases chosen : stream.select? room with
    | some next =>
      rw [chosen] at empty
      exact ih next chosen space empty
    | none =>
      have settled : stream.nextFrame? room = none := by
        cases wanted : stream.nextFrame? room with
        | none => rfl
        | some frame =>
          have possible := choose_isSome wanted
          rw [select?, wanted, Option.bind_some] at chosen
          rw [chosen] at possible
          cases possible
      show stream.hasPending room = false
      rw [hasPending, phase, settled]
      rfl
  | done size stream phase =>
    rw [read_done room stream size phase]
    show stream.hasPending room = false
    rw [hasPending, phase]

end WatchStream

namespace Room

variable {room : Room} {watch : WatchId} {stream : WatchStream}

def isNotified (room : Room) (watch : WatchId) : Bool :=
  (room.stream? watch).any (·.notified)

/-- A stream that waits safely: it has a notice, or it goes on and has nothing to say. -/
def Calm (room : Room) (watch : WatchId) : Prop :=
  room.isNotified watch = true ∨
    room.hasPending watch = false ∧ (room.stream? watch).any (·.isFinished) = false

theorem Calm.act (calm : room.Calm watch) (wired : room.Wired) (action : Action) :
    (room.act action).2.Calm watch := by
  cases found : room.stream? watch with
  | none =>
    right
    rw [hasPending, stream?_act wired, found]
    exact ⟨rfl, rfl⟩
  | some stream =>
    have heard : (room.act action).2.isNotified watch =
        (stream.notified || !(room.conversation.act action).changes.isEmpty) := by
      rw [isNotified, stream?_act wired, found]
      exact WatchStream.notified_foldl_note _ stream
    cases changes : (room.conversation.act action).changes with
    | cons change rest =>
      left
      rw [heard, changes]
      exact Bool.or_true _
    | nil =>
      have same : (room.act action).2.stream? watch = room.stream? watch := by
        rw [stream?_act wired, found, changes]
        rfl
      have quiet : (room.act action).2.conversation = room.conversation := by
        rw [conversation_act, Conversation.act_silent changes]
      rw [Calm, isNotified, hasPending, same, quiet]
      exact calm

end Room

end TileRoom
