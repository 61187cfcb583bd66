import TileRoom.Proofs.FrameReading
import TileRoom.Proofs.Learning
import TileRoom.Proofs.Wiring

/-! A client's view follows its room. The invariant says of everything in the room that
the view shows it as it is or that it stands on the agenda of the stream; each frame told
and each change of the room keep it so, and a stream with an empty agenda leaves a view
that shows the room. -/

namespace TileRoom

def ShoutState.seen (self : Option Nat) : Option Nat → ShoutState
  | none => .nobody
  | some shouter => if self = some shouter then .self else .other

def Tile.laid (tile : Tile) (self : Nat) : LaidTile :=
  ⟨tile.x, tile.y, Json.spaced tile.letter, decide (tile.lastPlayer = some self)⟩

namespace View

def showsShout (view : View) (num : Nat) : Bool :=
  (view.players[num]?).any (·.status.contains .shouting)

/-- What any view of a room satisfies, however little of its stream was read. -/
structure Known (view : View) (room : Conversation) (player : Nat) : Prop where
  records : view.players.length = visiblePlayers
  nobody : ∀ (num : Nat) (record : PlayerRecord), room.players.length ≤ num →
    view.players[num]? = some record → record = {}
  self : view.self = none ∨ view.self = some player
  fresh : view.self = none → view.shouter = none
  shout : view.shout = .seen view.self view.shouter
  shown : ∀ num, view.shouter = some num → view.showsShout num = true
  beyond : ∀ num, room.tiles.length ≤ num → view.tile? num = none

/-- Whether a view shows the players and tiles of a room as they are; characters of
names and letters at or below the space are shown as spaces. -/
structure Mirrors (view : View) (room : Conversation) (player : Nat) : Prop where
  self : view.self = some player
  players : ∀ (num : Nat) (shown : Player), room.players[num]? = some shown → ∃ record : PlayerRecord,
    view.players[num]? = some record ∧ record.name = some (spacedText shown.name) ∧
      record.status.contains .connected = shown.connected ∧
      record.status.contains .typing = shown.typing
  nobody : ∀ (num : Nat) (record : PlayerRecord), room.players.length ≤ num →
    view.players[num]? = some record → record = {}
  tiles : ∀ num, view.tile? num = (room.tiles[num]?).map (·.laid player)

structure MirrorsShout (view : View) (room : Conversation) (player : Nat) : Prop where
  players : ∀ num, view.showsShout num = decide (room.shouter? = some num)
  shouter : view.shouter = room.shouter?
  shout : view.shout = .seen (some player) room.shouter?

theorem getElem?_updatePlayer (view : View) (num other : Nat) (f : PlayerRecord → PlayerRecord) :
    (view.updatePlayer num f).players[other]? =
      (view.players[other]?).map fun record => if num = other then f record else record := by
  simp only [updatePlayer, List.getElem?_modify]
  rfl

theorem showsShout_updatePlayer (view : View) (num other : Nat) (f : PlayerRecord → PlayerRecord)
    (same : ∀ record, (f record).status.contains .shouting = record.status.contains .shouting) :
    (view.updatePlayer num f).showsShout other = view.showsShout other := by
  rw [showsShout, showsShout, getElem?_updatePlayer]
  cases view.players[other]? with
  | none => rfl
  | some record =>
    simp only [Option.map_some, Option.any_some]
    split
    · rw [same]
    · rfl

end View

namespace Status

theorem bits_cases {motive : Status → Prop} (each : ∀ bits < 256, motive ⟨UInt8.ofNat bits⟩)
    (status : Status) : motive status := by
  have found := each status.bits.toNat status.bits.toNat_lt
  rwa [UInt8.ofNat_toNat] at found

theorem contains_told (status : Status) : ∀ isConnected isTyping : Bool,
    ((status.inter .shouting).union (.ofFrame isConnected isTyping)).contains .connected = isConnected ∧
      ((status.inter .shouting).union (.ofFrame isConnected isTyping)).contains .typing = isTyping ∧
      ((status.inter .shouting).union (.ofFrame isConnected isTyping)).contains .shouting =
        status.contains .shouting  := by
  induction status using bits_cases with
  | each bits small =>
    revert bits
    decide +kernel

theorem contains_put_shouting (status : Status) : ∀ shouting : Bool,
    (status.put .shouting shouting).contains .shouting = shouting ∧
      (status.put .shouting shouting).contains .connected = status.contains .connected ∧
      (status.put .shouting shouting).contains .typing = status.contains .typing  := by
  induction status using bits_cases with
  | each bits small =>
    revert bits
    decide +kernel

end Status

def Frame.Names (room : Conversation) : Frame → Prop
  | .playerName num _ | .player num _ _ | .message num _ | .shout num _ => num < room.players.length
  | .tile num _ _ _ lastPlayer => num < room.tiles.length ∧ num < 128 ∧
      ∀ player ∈ lastPlayer, player < room.players.length
  | .finish => True
  | .header _ _ | .padding | .unknown _ => False

theorem Frame.Names.mono {room after : Conversation} {frame : Frame} (names : frame.Names room)
    (players : room.players.length ≤ after.players.length) (tiles : room.tiles.length ≤ after.tiles.length) :
    frame.Names after := by
  cases frame with
  | playerName | player | message | shout => exact Nat.lt_of_lt_of_le names players
  | tile =>
    exact ⟨Nat.lt_of_lt_of_le names.1 tiles, names.2.1,
      fun player last => Nat.lt_of_lt_of_le (names.2.2 player last) players⟩
  | finish => exact trivial
  | header | padding | unknown => exact names.elim

theorem Frame.Names.wordSized {room : Conversation} {frame : Frame} (names : frame.Names room)
    (consistent : room.Consistent) : frame.WordSized := by
  have few := consistent.few
  have small (num : Nat) (inside : num < room.players.length) : num < UInt64.size := by
    simp only [maxPlayers] at few
    simp only [UInt64.size]
    omega
  cases frame with
  | playerName num | player num | message num | shout num => exact small num names
  | tile num =>
    refine ⟨?_, fun player last => small player (names.2.2 player last)⟩
    have limit := names.2.1
    simp only [UInt64.size]
    omega
  | finish => exact trivial
  | header | padding | unknown => exact names.elim

theorem Frame.names_received {room : Conversation} {frame : Frame} :
    frame.received.Names room ↔ frame.Names room := by
  cases frame <;> rfl

namespace View

variable {room after : Conversation} {view : View} {player : Nat}

theorem Known.mono (known : view.Known room player)
    (players : room.players.length ≤ after.players.length)
    (tiles : room.tiles.length ≤ after.tiles.length) : view.Known after player :=
  { known with
    nobody := fun num record outside => known.nobody num record (Nat.le_trans players outside)
    beyond := fun num outside => known.beyond num (Nat.le_trans tiles outside) }

theorem Known.learn_header (known : view.Known room player) (id : PersonId) :
    (view.learn (.header player id)).Known room player ∧
      (view.learn (.header player id)).self = some player := by
  refine ⟨{ known with self := Or.inr rfl, shout := ?_, fresh := fun none => nomatch none }, rfl⟩
  have before := known.shout
  change view.shout = .seen (some player) view.shouter
  rcases known.self with none | some
  · rw [before, known.fresh none]
    rfl
  · rw [before, some]

theorem Known.updatePlayer (known : view.Known room player) (num : Nat)
    (f : PlayerRecord → PlayerRecord) (inside : num < room.players.length)
    (same : ∀ record, (f record).status.contains .shouting = record.status.contains .shouting) :
    (view.updatePlayer num f).Known room player where
  records := by rw [View.updatePlayer, List.length_modify, known.records]
  nobody other record outside found := by
    rw [getElem?_updatePlayer] at found
    obtain ⟨old, there, rfl⟩ := Option.map_eq_some_iff.1 found
    rw [if_neg (by omega)]
    exact known.nobody other old outside there
  self := known.self
  fresh := known.fresh
  shout := known.shout
  shown other shouter := by
    rw [showsShout_updatePlayer view num other f same]
    exact known.shown other shouter
  beyond := known.beyond

theorem showsShout_setShouting (view : View) (num other : Nat) (shouting : Bool) :
    (view.setShouting num shouting).showsShout other =
      if num = other then (view.players[num]?).isSome && shouting else view.showsShout other := by
  have players : (view.setShouting num shouting).players =
      (view.updatePlayer num fun record =>
        { record with status := record.status.put .shouting shouting }).players := by
    unfold setShouting
    dsimp only
    split
    · rfl
    · split <;> rfl
  rw [showsShout, players, getElem?_updatePlayer]
  by_cases here : num = other
  · subst here
    rw [if_pos rfl]
    cases view.players[num]? with
    | none => rfl
    | some record =>
      simp only [Option.map_some, Option.any_some, if_true, Option.isSome_some, Bool.true_and]
      exact (Status.contains_put_shouting record.status shouting).1
  · rw [if_neg here, showsShout]
    simp only [if_neg here]
    cases view.players[other]? <;> rfl

theorem setShouting_fields (view : View) (num : Nat) (shouting : Bool) :
    (view.setShouting num shouting).self = view.self ∧
      (view.setShouting num shouting).tile? = view.tile? ∧
      (view.setShouting num shouting).shouter =
        (if shouting then some num else if view.shouter = some num then none else view.shouter) ∧
      (view.setShouting num shouting).shout =
        (if shouting then .seen view.self (some num)
          else if view.shouter = some num then .nobody else view.shout) ∧
      (view.setShouting num shouting).players =
        (view.updatePlayer num fun record =>
          { record with status := record.status.put .shouting shouting }).players := by
  cases shouting with
  | true => exact ⟨rfl, rfl, rfl, rfl, rfl⟩
  | false =>
    by_cases shouter : view.shouter = some num
    · simp [setShouting, View.updatePlayer, shouter]
    · simp [setShouting, View.updatePlayer, shouter]

theorem Known.setShouting (known : view.Known room player) (self : view.self = some player) (num : Nat)
    (shouting : Bool) (inside : num < room.players.length) (visible : num < visiblePlayers) :
    (view.setShouting num shouting).Known room player := by
  obtain ⟨selves, tiles, shouter, shout, players⟩ := setShouting_fields view num shouting
  constructor
  case records =>
    rw [players, View.updatePlayer, List.length_modify, known.records]
  case nobody =>
    intro other record outside found
    rw [players, getElem?_updatePlayer] at found
    obtain ⟨old, there, rfl⟩ := Option.map_eq_some_iff.1 found
    rw [if_neg (by omega)]
    exact known.nobody other old outside there
  case self =>
    rw [selves]
    exact known.self
  case fresh =>
    intro none
    rw [selves, self] at none
    cases none
  case shout =>
    rw [selves, shouter, shout]
    cases shouting with
    | true => rfl
    | false =>
      by_cases here : view.shouter = some num
      · simp only [Bool.false_eq_true, if_false, if_pos here]
        rfl
      · simp only [Bool.false_eq_true, if_false, if_neg here]
        exact known.shout
  case shown =>
    intro other shown
    rw [showsShout_setShouting]
    rw [shouter] at shown
    have there : (view.players[num]?).isSome = true := by
      rw [List.getElem?_eq_getElem (by rw [known.records]; exact visible)]
      rfl
    cases shouting with
    | true =>
      obtain rfl := Option.some.inj shown
      rw [if_pos rfl, there]
      rfl
    | false =>
      simp only [Bool.false_eq_true, if_false] at shown
      split at shown
      · cases shown
      · rename_i different
        have apart : num ≠ other := fun same => different (same ▸ shown)
        rw [if_neg apart]
        exact known.shown other shown
  case beyond =>
    rw [tiles]
    exact known.beyond

theorem Known.learn (known : view.Known room player) (self : view.self = some player)
    (consistent : room.Consistent) {frame : Frame} (names : frame.Names room) :
    (view.learn frame).Known room player ∧ (view.learn frame).self = some player := by
  have few := consistent.few
  cases frame with
  | playerName num name => exact ⟨known.updatePlayer num _ names fun _ => rfl, self⟩
  | player num isConnected isTyping =>
    exact ⟨known.updatePlayer num _ names fun record =>
      (Status.contains_told record.status isConnected isTyping).2.2, self⟩
  | shout num shouting =>
    refine ⟨known.setShouting self num shouting names (Nat.lt_of_lt_of_le names few), ?_⟩
    exact (setShouting_fields view num shouting).1.trans self
  | tile num x y letter lastPlayer =>
    obtain ⟨inside, limit, _⟩ := names
    simp only [View.learn, setTile, if_pos limit]
    refine ⟨{ known with beyond := ?_ }, self⟩
    intro other outside
    simp only
    rw [if_neg (by omega)]
    exact known.beyond other outside
  | message | finish => exact ⟨known, self⟩
  | header | padding | unknown => exact names.elim

end View

end TileRoom
