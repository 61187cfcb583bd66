import TileRoom.Proofs.Presence
import TileRoom.Proofs.Watching

/-! The order in which a stream tells what happens in its room. Nobody is spoken of before
they are named, messages come in a row, and the last frame comes only after the player the
stream is for was told to be gone. All of this follows from the turn in which each frame
is chosen, and changes of the room keep it. -/

namespace TileRoom

def Frame.speaksOf : Frame → List Nat
  | .player num .. | .message num _ | .shout num _ => [num]
  | .tile _ _ _ _ lastPlayer => lastPlayer.toList
  | .header .. | .playerName .. | .finish | .padding | .unknown _ => []

def Frame.connected? (num : Nat) : Frame → Option Bool
  | .player other isConnected _ => if other = num then some isConnected else none
  | _ => none

def Frame.named (frames : List Frame) : List Nat :=
  (frames.filterMap Frame.name?).map (·.1)

def Frame.lastConnected? (num : Nat) (frames : List Frame) : Option Bool :=
  (frames.filterMap (Frame.connected? num)).getLast?

/-- Whether each frame speaks only of players who were named before it. -/
def Frame.Introduced (frames : List Frame) : Prop :=
  ∀ before frame after, frames = before ++ frame :: after → ∀ num ∈ frame.speaksOf, num ∈ Frame.named before

/-- Whether the last frame, if it is there, comes last, and only after a player who is gone
was told to be. -/
def Frame.EndsWell (frames : List Frame) (room : Conversation) (player : Nat) : Prop :=
  ∀ before after, frames = before ++ .finish :: after → after = [] ∧ room.isConnected player = false ∧
    Frame.lastConnected? player before = some false

/-- The frames told after the header to a player of a room who knew its first messages: the
names of the players by their numbers, each once; the messages in a row; and nobody and
nothing that is not there, or was not named yet. -/
structure WellOrdered (room : Conversation) (player first : Nat) (told : List Frame) : Prop where
  names : told.filterMap Frame.name? <+: room.players.mapIdx fun num player => (num, player.name)
  messages : told.filterMap Frame.message? <+: room.messages.drop first
  inRoom : ∀ frame ∈ told, frame.Names room
  introduced : Frame.Introduced told
  ends : Frame.EndsWell told room player

/-- The bytes of a stream that told some frames after its header. The last chunk follows the
last frame. -/
def WatchStream.text (keyHash : Option Key.Hash) (player : Nat) (id : PersonId) (told : List Frame) : Bytes :=
  opening keyHash ++ (.header player id :: told).flatMap Frame.chunk ++
    if .finish ∈ told then Chunk.lastChunk else []

namespace Frame

variable {room : Conversation} {frame : Frame} {told : List Frame} {num : Nat}

theorem Names.speaksOf (names : frame.Names room) (spoken : num ∈ frame.speaksOf) :
    num < room.players.length := by
  cases frame with
  | player | message | shout =>
    rw [List.mem_singleton.1 spoken]
    exact names
  | tile => exact names.2.2 num (Option.mem_toList.1 spoken)
  | header | playerName | finish | padding | unknown => cases spoken

theorem Introduced.concat (introduced : Introduced told)
    (named : ∀ num ∈ frame.speaksOf, num ∈ Frame.named told) : Introduced (told ++ [frame]) := by
  intro before other after same
  rcases split_concat same with ⟨_, rfl, rfl⟩ | ⟨rest, -, earlier⟩
  · exact named
  · exact introduced before other rest earlier

theorem EndsWell.of_last {player : Nat} (goes : .finish ∉ told)
    (gone : frame = .finish → room.isConnected player = false ∧ lastConnected? player told = some false) :
    EndsWell (told ++ [frame]) room player := by
  intro before after same
  rcases split_concat same with ⟨rfl, rfl, ends⟩ | ⟨rest, -, earlier⟩
  · exact ⟨rfl, gone ends.symm⟩
  · apply absurd _ goes
    rw [earlier]
    exact List.mem_append_right _ (List.mem_cons_self ..)

theorem lastConnected?_concat (told : List Frame) (frame : Frame) (num : Nat) :
    lastConnected? num (told ++ [frame]) = (frame.connected? num).or (lastConnected? num told) := by
  rw [lastConnected?, List.filterMap_append, List.getLast?_append]
  cases said : frame.connected? num with
  | none => rw [List.filterMap_cons_none said]; rfl
  | some isConnected => rw [List.filterMap_cons_some said]; rfl

end Frame

theorem Recounts.named {room : Conversation} {agenda : Agenda} {first : Nat} {told : List Frame}
    (recounts : Recounts room agenda first told) (consistent : room.Consistent)
    (all : room.players.length ≤ agenda.namedPlayers) {num : Nat} (inside : num < room.players.length) :
    num ∈ Frame.named told := by
  have found := List.getElem?_eq_getElem inside
  rw [Frame.named, recounts.names, List.take_of_length_le all, List.map_map]
  exact List.mem_map.2 ⟨_, List.mem_of_getElem? found, consistent.numbered num _ found⟩

namespace Tells

variable {room : Conversation} {agenda later : Agenda} {frame : Frame}

theorem namedPlayers_le (tells : Tells room agenda frame later)
    (below : agenda.namedPlayers ≤ room.players.length) : later.namedPlayers ≤ room.players.length := by
  cases tells with
  | name unnamed => exact (List.getElem?_eq_some_iff.1 unnamed).1
  | status | message | shout | tile | farewell => exact below

theorem shouts_due (tells : Tells room agenda frame later) {num : Nat}
    (due : later.shouts.contains num = true) : agenda.shouts.contains num = true := by
  cases tells with
  | shout => exact ((IndexSet.contains_erase_iff _ _ _).1 due).1
  | name | status | message | tile | farewell => exact due

theorem said (tells : Tells room agenda frame later) (consistent : room.Consistent) {num : Nat}
    (clean : ¬later.players.contains num = true) :
    frame.connected? num = some (room.isConnected num) ∨
      frame.connected? num = none ∧ ¬agenda.players.contains num = true := by
  cases tells with
  | @status other player found due =>
    have number := consistent.numbered other player found
    by_cases same : other = num
    · left
      subst same
      rw [Player.statusFrame, number, Conversation.isConnected, Conversation.player?, found]
      exact if_pos rfl
    · right
      refine ⟨?_, fun known => clean ((IndexSet.contains_erase_iff _ _ _).2 ⟨known, Ne.symm same⟩)⟩
      rw [Player.statusFrame, number]
      exact if_neg same
  | name | message | shout | tile | farewell => exact Or.inr ⟨rfl, clean⟩

theorem gone (tells : Tells room agenda .finish later) : room.isConnected agenda.player = false := by
  cases tells with
  | farewell gone => exact gone

end Tells

/-- What holds of the agenda of a stream and of what follows its last frame, after some frames
were told in their turn. -/
structure Orders (room : Conversation) (player first : Nat) (told : List Frame) (agenda : Agenda)
    (closing : Bytes) : Prop where
  isFor : agenda.player = player
  inside : player < room.players.length
  knew : first ≤ room.messages.length
  recounts : Recounts room agenda first told
  namedPlayers : agenda.namedPlayers ≤ room.players.length
  shouts : ∀ num, agenda.shouts.contains num = true → num < room.players.length
  inRoom : ∀ frame ∈ told, frame.Names room
  introduced : Frame.Introduced told
  status : ¬agenda.players.contains player = true →
    Frame.lastConnected? player told = some (room.isConnected player)
  closing : closing = if .finish ∈ told then Chunk.lastChunk else []
  ends : Frame.EndsWell told room player

namespace Orders

variable {room : Conversation} {player first : Nat} {told : List Frame} {agenda later : Agenda}
  {closing : Bytes} {frame : Frame}

theorem opened (consistent : room.Consistent) (inside : player < room.players.length) (id : PersonId)
    (lastMessage : Nat) (keyHash : Option Key.Hash) :
    Orders room player (min lastMessage room.messages.length) []
      (WatchStream.opened room id player lastMessage keyHash).agenda [] where
  isFor := rfl
  inside := inside
  knew := Nat.min_le_right _ _
  recounts := ⟨rfl, Nat.min_le_right _ _, List.append_nil _⟩
  namedPlayers := Nat.zero_le _
  shouts num due :=
    consistent.shouting num ((WatchStream.shouts_opened consistent id player lastMessage keyHash num).1 due)
  inRoom := nofun
  introduced before frame after same := by
    cases before <;> cases same
  status clean :=
    absurd (WatchStream.players_opened consistent id player lastMessage keyHash inside) clean
  closing := rfl
  ends before after same := by
    cases before <;> cases same

theorem act (orders : Orders room player first told agenda closing) (consistent : room.Consistent)
    (action : Action) (noted : Noted agenda (room.act action).changes later) :
    Orders (room.act action).after player first told later closing := by
  have altered := Conversation.altered_act room action
  have right := Conversation.consistent_act consistent action
  have players := altered.players_le
  constructor
  case isFor => exact noted.player.trans orders.isFor
  case inside => exact Nat.lt_of_lt_of_le orders.inside players
  case knew => exact Nat.le_trans orders.knew altered.messages.length_le
  case recounts =>
    exact orders.recounts.altered orders.knew orders.namedPlayers consistent right altered noted
  case namedPlayers =>
    rw [noted.namedPlayers]
    exact Nat.le_trans orders.namedPlayers players
  case shouts =>
    intro num due
    rcases (noted.shouts num).1 due with known | ⟨_, change⟩
    · exact Nat.lt_of_lt_of_le (orders.shouts num known) players
    · rcases altered.shouters num change with before | after
      · exact Nat.lt_of_lt_of_le (consistent.shouting num before) players
      · exact right.shouting num after
  case inRoom =>
    intro frame member
    exact (orders.inRoom frame member).mono players altered.turned
  case introduced => exact orders.introduced
  case status =>
    intro clean
    rw [noted.players, not_or] at clean
    have found := List.getElem?_eq_getElem orders.inside
    obtain ⟨record, there, _, either⟩ := altered.kept player _ found
    have same := either.resolve_left fun change => clean.2 ⟨consistent.small orders.inside, change⟩
    rw [orders.status clean.1, Conversation.isConnected, Conversation.isConnected, Conversation.player?,
      Conversation.player?, found, there, same]
  case closing => exact orders.closing
  case ends =>
    intro before after same
    obtain ⟨last, gone, said⟩ := orders.ends before after same
    exact ⟨last, Conversation.gone_act orders.inside gone action, said⟩

theorem goes (orders : Orders room player first told agenda []) : .finish ∉ told := by
  intro member
  have same := orders.closing
  rw [if_pos member] at same
  exact List.append_ne_nil_of_right_ne_nil _ (List.cons_ne_nil 13 [10]) same.symm

theorem tells (orders : Orders room player first told agenda []) (consistent : room.Consistent)
    (tells : Tells room agenda frame later) (inTurn : InTurn room agenda frame) :
    Orders room player first (told ++ [frame]) later (if frame = .finish then Chunk.lastChunk else []) := by
  have names := tells.names consistent orders.shouts
  constructor
  case isFor => exact tells.player.trans orders.isFor
  case inside => exact orders.inside
  case knew => exact orders.knew
  case recounts => exact orders.recounts.tells tells
  case namedPlayers => exact tells.namedPlayers_le orders.namedPlayers
  case shouts =>
    intro num due
    exact orders.shouts num (tells.shouts_due due)
  case inRoom =>
    intro other member
    rcases List.mem_append.1 member with old | new
    · exact orders.inRoom other old
    · rw [List.mem_singleton.1 new]
      exact names
  case introduced =>
    apply orders.introduced.concat
    intro num spoken
    rcases inTurn.named with ⟨_, _, rfl⟩ | all
    · cases spoken
    · exact orders.recounts.named consistent all (names.speaksOf spoken)
  case status =>
    intro clean
    rw [Frame.lastConnected?_concat]
    rcases tells.said consistent clean with said | ⟨silent, settled⟩
    · rw [said, Option.some_or]
    · rw [silent, Option.none_or, orders.status settled]
  case closing =>
    simp only [List.mem_append, List.mem_singleton, orders.goes, false_or, eq_comm]
  case ends =>
    apply Frame.EndsWell.of_last orders.goes
    rintro rfl
    have away : room.isConnected player = false := orders.isFor ▸ tells.gone
    rw [away, orders.status (inTurn.last rfl player orders.inside), away]
    exact ⟨rfl, rfl⟩

theorem wellOrdered (orders : Orders room player first told agenda closing) (consistent : room.Consistent) :
    WellOrdered room player first told where
  names := by
    have numbered : room.players.mapIdx (fun num player => (num, player.name)) =
        room.players.map fun player => (player.num, player.name) := by
      apply List.ext_getElem?
      intro num
      rw [List.getElem?_mapIdx, List.getElem?_map]
      cases found : room.players[num]? with
      | none => rfl
      | some player => rw [Option.map_some, Option.map_some, consistent.numbered num player found]
    rw [numbered, orders.recounts.names]
    exact (List.take_prefix _ _).map _
  messages := by
    have told := congrArg (List.drop first) orders.recounts.messages
    rw [List.drop_left' (List.length_take_of_le orders.knew), List.drop_take] at told
    rw [told]
    exact List.take_prefix _ _
  inRoom := orders.inRoom
  introduced := orders.introduced
  ends := orders.ends

end Orders

namespace Room

structure Keeps (room : Room) (watch : WatchId) (keyHash : Option Key.Hash) (id : PersonId)
    (player first : Nat) (told : List Frame) (written : Bytes) : Prop where
  wired : room.Wired
  consistent : room.conversation.Consistent
  stream : ∃ stream, room.stream? watch = some stream ∧
    Orders room.conversation player first told stream.agenda stream.closing ∧
    WatchStream.Spelled (WatchStream.opening keyHash) ([.header player id] ++ told) written stream

variable {room : Room} {watch : WatchId} {keyHash : Option Key.Hash} {id : PersonId} {player first : Nat}
  {told : List Frame} {written : Bytes}

theorem Keeps.act (keeps : room.Keeps watch keyHash id player first told written) (action : Action) :
    (room.act action).2.Keeps watch keyHash id player first told written := by
  obtain ⟨wired, consistent, stream, found, orders, spelled⟩ := keeps
  have noted := WatchStream.noted_foldl (room.conversation.act action).changes stream
  refine ⟨wired_act wired action, ?_, _, ?_, ?_, spelled.note (room.conversation.act action).changes⟩
  · rw [conversation_act]
    exact Conversation.consistent_act consistent action
  · rw [stream?_act wired, found, Option.map_some]
  · rw [conversation_act, WatchStream.closing_foldl_note]
    exact orders.act consistent action noted

theorem Keeps.read (keeps : room.Keeps watch keyHash id player first told written) (size : Nat) :
    ∃ more, (room.read watch size).2.Keeps watch keyHash id player first (told ++ more)
      (written ++ (room.read watch size).1) := by
  obtain ⟨wired, consistent, stream, found, orders, spelled⟩ := keeps
  obtain ⟨bytes, next, same⟩ := read_some found size
  obtain ⟨more, kept, spells⟩ := WatchStream.read_keeps room.conversation
    (fun told stream => Orders room.conversation player first told stream.agenda stream.closing)
    (fun agenda closing orders => by rw [agenda, closing]; exact orders)
    (fun idle selected orders => by
      rw [selected.closing]
      exact (idle ▸ orders).tells consistent selected.tells selected.inTurn)
    size stream orders spelled
  refine ⟨more, wired_read wired watch size, ?_, _, next, ?_, ?_⟩
  · rw [same]
    exact consistent
  · rw [same]
    exact kept
  · rw [bytes]
    exact spells

theorem Keeps.proceed (keeps : room.Keeps watch keyHash id player first told written)
    (steps : List WatchStep) :
    ∃ more, (room.proceed watch steps).2.Keeps watch keyHash id player first (told ++ more)
      (written ++ (room.proceed watch steps).1) := by
  induction steps generalizing room told written with
  | nil =>
    refine ⟨[], ?_⟩
    rw [List.append_nil]
    exact (List.append_nil written).symm ▸ keeps
  | cons step rest ih =>
    cases step with
    | act action => exact ih (keeps.act action)
    | read size =>
      obtain ⟨more, next⟩ := keeps.read size
      obtain ⟨others, last⟩ := ih next
      rw [List.append_assoc, List.append_assoc] at last
      exact ⟨more ++ others, last⟩

theorem keeps_watch (wired : room.Wired) (consistent : room.conversation.Consistent)
    (inside : player < room.conversation.players.length) (id : PersonId) (lastMessage : Nat)
    (keyHash : Option Key.Hash) :
    (room.watch id player lastMessage keyHash).2.Keeps room.nextWatch keyHash id player
      (min lastMessage room.conversation.messages.length) [] [] := by
  refine ⟨wired_watch wired _ _ _ _, consistent, _, ?_,
    Orders.opened consistent inside id lastMessage keyHash, WatchStream.spelled_opened _ _ _ _ _⟩
  rw [stream?_watch]
  exact if_pos rfl

theorem Keeps.spells (keeps : room.Keeps watch keyHash id player first told written) :
    written <+: WatchStream.text keyHash player id told := by
  obtain ⟨_, _, stream, _, orders, spelled⟩ := keeps
  refine ⟨stream.owed, ?_⟩
  rw [spelled.text, orders.closing]
  rfl

theorem Keeps.wellOrdered (keeps : room.Keeps watch keyHash id player first told written) :
    WellOrdered room.conversation player first told := by
  obtain ⟨_, consistent, _, _, orders, _⟩ := keeps
  exact orders.wellOrdered consistent

end Room

/-- Every watch stream is well formed. Whatever happened in the room before, whoever the stream
is opened for and wherever it is to go on, and whatever operations and reads follow each other,
there are frames told so far, in order, and what was written is the beginning of their text: the
opening, the header and the frames in chunks, and the last chunk after the last frame. Whatever
follows, they are only added to, so nothing comes after the last frame and its last chunk. -/
theorem watch_stream_in_order (bag : List Char) (earlier : List Action) (id : PersonId) (player : Nat)
    (inside : player < ((Conversation.ofBag bag).run earlier).players.length) (lastMessage : Nat)
    (keyHash : Option Key.Hash) (steps others : List WatchStep) :
    let conversation := (Conversation.ofBag bag).run earlier
    let first := min lastMessage conversation.messages.length
    let opened := ({ conversation } : Room).watch id player lastMessage keyHash
    let now := opened.2.proceed opened.1 steps
    let later := now.2.proceed opened.1 others
    ∃ told more,
      WellOrdered now.2.conversation player first told ∧
      now.1 <+: WatchStream.text keyHash player id told ∧
      WellOrdered later.2.conversation player first (told ++ more) ∧
      now.1 ++ later.1 <+: WatchStream.text keyHash player id (told ++ more) := by
  intro conversation first opened now later
  have begun : opened.2.Keeps opened.1 keyHash id player first [] [] :=
    Room.keeps_watch (Room.wired_ofConversation conversation)
      (Conversation.consistent_run (Conversation.consistent_ofBag bag) earlier) inside id lastMessage keyHash
  obtain ⟨told, keeps⟩ := begun.proceed steps
  obtain ⟨more, still⟩ := keeps.proceed others
  exact ⟨told, more, keeps.wellOrdered, keeps.spells, still.wellOrdered, still.spells⟩

/-- Someone watches who left before, and has counted more messages than there are. -/
theorem watch_stream_in_order_of_leaver :
    let conversation := (Conversation.ofBag ['A']).run [.join "ann", .join "bob", .say 1 "hi", .leave 0]
    let opened := ({ conversation } : Room).watch 7 0 5 none
    let now := opened.2.proceed opened.1 [.read 2000, .act (.say 1 "bye"), .read 10]
    let later := now.2.proceed opened.1 [.act (.turn 1), .read 4000]
    0 < conversation.players.length ∧ ∃ told more,
      WellOrdered now.2.conversation 0 1 told ∧
      now.1 <+: WatchStream.text none 0 7 told ∧
      WellOrdered later.2.conversation 0 1 (told ++ more) ∧
      now.1 ++ later.1 <+: WatchStream.text none 0 7 (told ++ more) :=
  ⟨by decide, watch_stream_in_order ['A'] [.join "ann", .join "bob", .say 1 "hi", .leave 0] 7 0 (by decide) 5
    none [.read 2000, .act (.say 1 "bye"), .read 10] [.act (.turn 1), .read 4000]⟩

end TileRoom
