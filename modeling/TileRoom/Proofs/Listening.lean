import Mathlib.Data.List.Nodup
import TileRoom.Proofs.Moving
import TileRoom.Proofs.Noticing

/-! The listeners of a room over its whole life. Every stream that is opened registers with both
signals under ids that were never used; it is told of every change until it is closed, when it
takes back its own two listeners and no others. -/

namespace TileRoom

theorem Signal.isSubscribed_of_mem {label : Type} {signal : Signal label} {id : ListenerId} {listener : label}
    (present : (id, listener) ∈ signal.listeners) : signal.isSubscribed id = true :=
  List.any_eq_true.2 ⟨_, present, decide_eq_true rfl⟩

structure Registration where
  watch : WatchId
  changed : ListenerId
  playerChanged : ListenerId
deriving DecidableEq

def Registration.onChanged (registration : Registration) : ListenerId × WatchId :=
  (registration.changed, registration.watch)

def Registration.onPlayerChanged (registration : Registration) : ListenerId × WatchId :=
  (registration.playerChanged, registration.watch)

/-- One registration was made before another: none of its ids is used again. -/
structure Registration.Before (earlier later : Registration) : Prop where
  watch : earlier.watch < later.watch
  changed : earlier.changed < later.changed
  playerChanged : earlier.playerChanged < later.playerChanged

theorem Registration.Before.trans {first second third : Registration} (early : first.Before second)
    (late : second.Before third) : first.Before third :=
  ⟨Nat.lt_trans early.watch late.watch, Nat.lt_trans early.changed late.changed,
    Nat.lt_trans early.playerChanged late.playerChanged⟩

namespace Room

def registration (room : Room) : Registration where
  watch := room.nextWatch
  changed := (room.changed.subscribe room.nextWatch).1
  playerChanged := (room.playerChanged.subscribe room.nextWatch).1

def registrations (room : Room) : List Registration :=
  room.watches.entries.map fun entry => ⟨entry.1, entry.2.changed, entry.2.playerChanged⟩

end Room

/-- A room with a record of its streams: all that were ever opened and those that are open, both in
the order they were opened. -/
structure Attendance where
  room : Room
  given : List Registration := []
  live : List Registration := []

namespace Attendance

def step (attendance : Attendance) (move : RoomMove) : Attendance :=
  let room := attendance.room.move move
  match move with
  | .watch .. =>
      { room
        given := attendance.given ++ [attendance.room.registration]
        live := attendance.live ++ [attendance.room.registration] }
  | .unwatch watch => { attendance with room, live := attendance.live.filter (·.watch ≠ watch) }
  | .act _ | .read .. | .takeNotice _ => { attendance with room }

def run (attendance : Attendance) (moves : List RoomMove) : Attendance :=
  moves.foldl step attendance

end Attendance

namespace Room

variable {room next : Room}

structure SameListeners (room next : Room) : Prop where
  registrations : next.registrations = room.registrations
  changed : next.changed = room.changed
  playerChanged : next.playerChanged = room.playerChanged
  nextWatch : next.nextWatch = room.nextWatch

theorem SameListeners.trans {last : Room} (first : room.SameListeners next) (second : next.SameListeners last) :
    room.SameListeners last where
  registrations := second.registrations.trans first.registrations
  changed := second.changed.trans first.changed
  playerChanged := second.playerChanged.trans first.playerChanged
  nextWatch := second.nextWatch.trans first.nextWatch

theorem sameListeners_updateStream (room : Room) (watch : WatchId) (f : WatchStream → WatchStream) :
    room.SameListeners (room.updateStream watch f) := by
  refine ⟨?_, rfl, rfl, rfl⟩
  rw [registrations, updateStream, Table.update, List.map_map, registrations]
  apply List.map_congr_left
  intro entry _
  rw [Function.comp_apply, Table.change]
  split <;> rfl

theorem sameListeners_tell (room : Room) (change : Change) : room.SameListeners (room.tell change) := by
  rw [tell_eq]
  generalize (room.signalOf change).listeners.map (·.2) = heard
  induction heard generalizing room with
  | nil => exact ⟨rfl, rfl, rfl, rfl⟩
  | cons first rest ih => exact (sameListeners_updateStream room first _).trans (ih _)

theorem sameListeners_foldl_tell (changes : List Change) (room : Room) :
    room.SameListeners (changes.foldl tell room) := by
  induction changes generalizing room with
  | nil => exact ⟨rfl, rfl, rfl, rfl⟩
  | cons change rest ih => exact (sameListeners_tell room change).trans (ih _)

theorem sameListeners_act (room : Room) (action : Action) : room.SameListeners (room.act action).2 := by
  have told := sameListeners_foldl_tell (room.conversation.act action).changes
    { room with conversation := (room.conversation.act action).after }
  exact ⟨told.registrations, told.changed, told.playerChanged, told.nextWatch⟩

theorem sameListeners_read (room : Room) (watch : WatchId) (size : Nat) :
    room.SameListeners (room.read watch size).2 := by
  unfold read
  cases room.stream? watch with
  | none => exact ⟨rfl, rfl, rfl, rfl⟩
  | some stream => exact sameListeners_updateStream room watch fun _ => (stream.read room.conversation size).2

theorem registrations_watch (wired : room.Wired) (id : PersonId) (player lastMessage : Nat)
    (keyHash : Option Key.Hash) :
    (room.watch id player lastMessage keyHash).2.registrations = room.registrations ++ [room.registration] := by
  rw [registrations, watch, room.watches.entries_put (not_mem_nextWatch wired), List.map_append]
  rfl

theorem watches_registrations (room : Room) : room.registrations.map (·.watch) = room.watches.keys := by
  rw [registrations, List.map_map]
  rfl

theorem registrations_unwatch (room : Room) (watch : WatchId) :
    (room.unwatch watch).2.registrations = room.registrations.filter (·.watch ≠ watch) := by
  unfold unwatch
  split
  next absent =>
    rw [Table.find?_eq_none_iff, ← watches_registrations] at absent
    symm
    refine List.filter_eq_self.2 fun other member => decide_eq_true fun same => absent ?_
    exact List.mem_map.2 ⟨other, member, same⟩
  next =>
    rw [registrations, registrations, List.filter_map]
    rfl

end Room

namespace Attendance

variable {attendance : Attendance}

/-- The record agrees with the room, and the room will give out later ids only. -/
structure Kept (attendance : Attendance) : Prop where
  wired : attendance.room.Wired
  live : attendance.live = attendance.room.registrations
  opened : attendance.live.Sublist attendance.given
  fresh : attendance.given.Pairwise Registration.Before
  next : ∀ earlier ∈ attendance.given, earlier.Before attendance.room.registration

theorem kept_ofConversation (conversation : Conversation) : ({ room := { conversation } } : Attendance).Kept :=
  ⟨Room.wired_ofConversation conversation, rfl, List.Sublist.refl [], List.Pairwise.nil, nofun⟩

theorem Kept.quiet (kept : attendance.Kept) {next : Room} (wired : next.Wired)
    (same : attendance.room.SameListeners next) : ({ attendance with room := next } : Attendance).Kept := by
  have upcoming : next.registration = attendance.room.registration := by
    rw [Room.registration, same.changed, same.playerChanged, same.nextWatch]
    rfl
  refine ⟨wired, kept.live.trans same.registrations.symm, kept.opened, kept.fresh, ?_⟩
  rw [upcoming]
  exact kept.next

theorem Kept.step (kept : attendance.Kept) (move : RoomMove) : (attendance.step move).Kept := by
  have wired := Room.wired_move kept.wired move
  cases move with
  | act action => exact kept.quiet wired (Room.sameListeners_act _ action)
  | read watch size => exact kept.quiet wired (Room.sameListeners_read _ watch size)
  | takeNotice watch => exact kept.quiet wired (Room.sameListeners_updateStream _ watch ({ · with notified := false }))
  | watch id player lastMessage keyHash =>
    have later : attendance.room.registration.Before
        (attendance.room.watch id player lastMessage keyHash).2.registration :=
      ⟨Nat.lt_succ_self _, Nat.lt_succ_self _, Nat.lt_succ_self _⟩
    refine ⟨wired, ?_, kept.opened.append_right _, ?_, ?_⟩
    · refine Eq.trans ?_ (Room.registrations_watch kept.wired id player lastMessage keyHash).symm
      rw [← kept.live]
      rfl
    · refine List.pairwise_append.2 ⟨kept.fresh, List.pairwise_singleton _ _, fun earlier known added new => ?_⟩
      rw [List.mem_singleton.1 new]
      exact kept.next earlier known
    · intro earlier member
      rcases List.mem_append.1 member with known | new
      · exact (kept.next earlier known).trans later
      · rw [List.mem_singleton.1 new]
        exact later
  | unwatch watch =>
    have same : (attendance.room.unwatch watch).2.registration = attendance.room.registration := by
      unfold Room.unwatch
      split <;> rfl
    refine ⟨wired, ?_, List.filter_sublist.trans kept.opened, kept.fresh, ?_⟩
    · refine Eq.trans ?_ (Room.registrations_unwatch _ watch).symm
      rw [← kept.live]
      rfl
    · intro earlier known
      exact same ▸ kept.next earlier known

theorem Kept.run (kept : attendance.Kept) (moves : List RoomMove) : (attendance.run moves).Kept := by
  induction moves generalizing attendance with
  | nil => exact kept
  | cons move rest ih => exact ih (kept.step move)

/-- The stream of a registration is closed: its own two listeners are found and taken out, and those
of all other streams stay. -/
structure Drops (attendance : Attendance) (gone : Registration) : Prop where
  found : (attendance.room.unwatch gone.watch).1 = some (true, true)
  changed : attendance.room.changed.unsubscribe gone.changed =
    (true, (attendance.room.unwatch gone.watch).2.changed)
  playerChanged : attendance.room.playerChanged.unsubscribe gone.playerChanged =
    (true, (attendance.room.unwatch gone.watch).2.playerChanged)
  keepsChanged : (attendance.room.unwatch gone.watch).2.changed.listeners =
    (attendance.live.filter (· ≠ gone)).map Registration.onChanged
  keepsPlayerChanged : (attendance.room.unwatch gone.watch).2.playerChanged.listeners =
    (attendance.live.filter (· ≠ gone)).map Registration.onPlayerChanged

/-- A change goes out in a room: it is delivered to every open stream once, which notes it and is
woken, and to no stream that was closed. -/
structure Emits (attendance : Attendance) (room : Room) (change : Change) : Prop where
  sent : (room.signalOf change).emit change = attendance.live.map fun registration => (registration.watch, change)
  noted : ∀ registration ∈ attendance.live, ∃ stream after,
    room.stream? registration.watch = some stream ∧
      (room.tell change).stream? registration.watch = some after ∧
      Noted stream.agenda [change] after.agenda ∧ after.notified = true
  missed : ∀ registration ∈ attendance.given, registration ∉ attendance.live →
    (registration.watch, change) ∉ (room.signalOf change).emit change ∧
      (room.tell change).stream? registration.watch = none

structure Balanced (attendance : Attendance) : Prop where
  streams : attendance.room.watches.keys = attendance.live.map (·.watch)
  changed : attendance.room.changed.listeners = attendance.live.map Registration.onChanged
  playerChanged : attendance.room.playerChanged.listeners = attendance.live.map Registration.onPlayerChanged
  opened : attendance.live.Sublist attendance.given
  fresh : attendance.given.Pairwise Registration.Before
  drops : ∀ gone ∈ attendance.live, attendance.Drops gone
  emits : ∀ action earlier change later,
    (attendance.room.conversation.act action).changes = earlier ++ change :: later →
    attendance.Emits (earlier.foldl Room.tell
      { attendance.room with conversation := (attendance.room.conversation.act action).after }) change

theorem Kept.eq_of_watch (kept : attendance.Kept) {one other : Registration} (first : one ∈ attendance.given)
    (second : other ∈ attendance.given) (same : one.watch = other.watch) : one = other := by
  have distinct : (attendance.given.map (·.watch)).Nodup :=
    List.pairwise_map.2 (kept.fresh.imp fun before => Nat.ne_of_lt before.watch)
  exact List.inj_on_of_nodup_map distinct first second same

theorem Kept.entry (kept : attendance.Kept) {registration : Registration} (present : registration ∈ attendance.live) :
    ∃ stream, attendance.room.watches.find? registration.watch =
      some ⟨stream, registration.changed, registration.playerChanged⟩ := by
  rw [kept.live] at present
  obtain ⟨⟨watch, found⟩, member, rfl⟩ := List.mem_map.1 present
  exact ⟨found.stream, (Table.find?_eq_some_iff _ _ _).2 member⟩

theorem Kept.listeners_changed (kept : attendance.Kept) :
    attendance.room.changed.listeners = attendance.live.map Registration.onChanged := by
  rw [kept.wired.changed.listeners, kept.live, Room.registrations, List.map_map]
  rfl

theorem Kept.listeners_playerChanged (kept : attendance.Kept) :
    attendance.room.playerChanged.listeners = attendance.live.map Registration.onPlayerChanged := by
  rw [kept.wired.playerChanged.listeners, kept.live, Room.registrations, List.map_map]
  rfl

theorem Kept.drops (kept : attendance.Kept) {gone : Registration} (present : gone ∈ attendance.live) :
    attendance.Drops gone := by
  obtain ⟨stream, there⟩ := kept.entry present
  have changed : attendance.room.changed.isSubscribed gone.changed = true := by
    apply Signal.isSubscribed_of_mem
    rw [kept.listeners_changed]
    exact List.mem_map_of_mem present
  have playerChanged : attendance.room.playerChanged.isSubscribed gone.playerChanged = true := by
    apply Signal.isSubscribed_of_mem
    rw [kept.listeners_playerChanged]
    exact List.mem_map_of_mem present
  have later := kept.step (.unwatch gone.watch)
  -- No two streams share an id, so only this one is struck off.
  have rest : attendance.live.filter (·.watch ≠ gone.watch) = attendance.live.filter (· ≠ gone) := by
    refine List.filter_congr fun other member => decide_eq_decide.2 (not_congr ⟨fun same => ?_, congrArg _⟩)
    exact kept.eq_of_watch (kept.opened.subset member) (kept.opened.subset present) same
  refine ⟨?_, ?_, ?_, ?_, ?_⟩
  · rw [Room.unwatch, there]
    exact congrArg some (Prod.ext changed playerChanged)
  · rw [Room.unwatch, there]
    exact Prod.ext changed rfl
  · rw [Room.unwatch, there]
    exact Prod.ext playerChanged rfl
  · rw [← rest]
    exact later.listeners_changed
  · rw [← rest]
    exact later.listeners_playerChanged

theorem Kept.streams (kept : attendance.Kept) :
    attendance.room.watches.keys = attendance.live.map (·.watch) := by
  rw [← Room.watches_registrations, kept.live]

theorem Kept.emits (kept : attendance.Kept) (change : Change) : attendance.Emits attendance.room change := by
  have sent : (attendance.room.signalOf change).emit change =
      attendance.live.map fun registration => (registration.watch, change) := by
    have labels := Room.labels_signalOf kept.wired change
    rw [kept.streams] at labels
    have sends := congrArg (List.map fun watch => (watch, change)) labels
    rw [List.map_map, List.map_map] at sends
    exact sends
  refine ⟨sent, fun registration present => ?_, fun registration known closed => ?_⟩
  · obtain ⟨stream, there⟩ := kept.entry present
    have before : attendance.room.stream? registration.watch = some stream := by
      rw [Room.stream?, there, Option.map_some]
    refine ⟨stream, stream.note change, before, ?_, stream.noted_note change, stream.notified_note change⟩
    rw [Room.stream?_tell kept.wired, before, Option.map_some]
  · have absent : registration.watch ∉ attendance.live.map (·.watch) := by
      intro member
      obtain ⟨other, present, same⟩ := List.mem_map.1 member
      exact closed (kept.eq_of_watch (kept.opened.subset present) known same ▸ present)
    constructor
    · rw [sent]
      intro member
      obtain ⟨other, present, same⟩ := List.mem_map.1 member
      exact absent (List.mem_map.2 ⟨other, present, congrArg Prod.fst same⟩)
    · rw [Room.stream?_tell kept.wired, Room.stream?, (Table.find?_eq_none_iff _ _).2 (kept.streams ▸ absent)]
      rfl

theorem Kept.balanced (kept : attendance.Kept) : attendance.Balanced where
  streams := kept.streams
  changed := kept.listeners_changed
  playerChanged := kept.listeners_playerChanged
  opened := kept.opened
  fresh := kept.fresh
  drops _ present := kept.drops present
  emits action earlier change later _ := by
    -- The changes before this one reached the streams, and left the signals as they were.
    have begun : Room.Wired { attendance.room with conversation := (attendance.room.conversation.act action).after } :=
      Room.wired_conversation kept.wired _
    have same := Room.sameListeners_foldl_tell earlier
      { attendance.room with conversation := (attendance.room.conversation.act action).after }
    have kept := kept.quiet (Room.foldl_tell begun earlier 0).1
      ⟨same.registrations, same.changed, same.playerChanged, same.nextWatch⟩
    exact ⟨(kept.emits change).sent, (kept.emits change).noted, (kept.emits change).missed⟩

end Attendance

/-- However streams of a room are opened and closed between its operations, its listeners are those
of the open streams. -/
theorem listeners_balanced (conversation : Conversation) (moves : List RoomMove) :
    (Attendance.run { room := { conversation } } moves).Balanced :=
  ((Attendance.kept_ofConversation conversation).run moves).balanced

end TileRoom
