import TileRoom.Proofs.RequestReading

/-! The arguments of a request by their places. A route says what it takes in each place.
Its arguments are read in order, so the first one that does not suit its place decides the
error, and their number decides only when all of them suit. -/

namespace TileRoom

/-- What a route takes in one place. -/
inductive Slot where
  | text
  | checked (kind : ArgumentKind)
deriving DecidableEq

inductive ArgumentValue where
  | text (text : String)
  | id (id : PersonId)
  | number (number : Nat)
  | coordinate (value : Int32)
deriving DecidableEq

def ArgumentKind.read? : ArgumentKind → List Char → Option ArgumentValue
  | .personId, text => (PersonId.parse? text).map .id
  | .messageNumber, text | .tileNumber, text => (Numeral.readWord? text).map .number
  | .xCoordinate, text | .yCoordinate, text => (Numeral.readCoordinate? text).map .coordinate

def Slot.read? : Slot → List Char → Option ArgumentValue
  | .text, argument => some (.text (String.ofList argument))
  | .checked kind, argument => kind.read? argument

def Route.slots : Route → List Slot
  | .newPerson => [.text, .text]
  | .watchPerson => [.checked .personId, .checked .messageNumber]
  | .sendMessage => [.checked .personId, .text]
  | .startTyping | .stopTyping | .keepAlive | .leave | .shout | .turn => [.checked .personId]
  | .moveTile =>
      [.checked .personId, .checked .tileNumber, .checked .xCoordinate, .checked .yCoordinate]

namespace Request

def values : Request → List ArgumentValue
  | .newPerson room name => [.text room, .text name]
  | .watchPerson id lastMessage => [.id id, .number lastMessage]
  | .sendMessage id text => [.id id, .text text]
  | .startTyping id | .stopTyping id | .keepAlive id | .leave id | .shout id | .turn id =>
      [.id id]
  | .moveTile id tile x y => [.id id, .number tile, .coordinate x, .coordinate y]

theorem eq_of_values {request other : Request} (route : request.route = other.route)
    (values : request.values = other.values) : request = other := by
  cases request <;> cases other <;> simp_all [Request.route, Request.values]

def faults : List Slot → List (List Char) → List (ArgumentKind × List Char)
  | .checked kind :: slots, text :: rest =>
      if (kind.read? text).isSome then faults slots rest
      else (kind, text) :: faults slots rest
  | .text :: slots, _ :: rest => faults slots rest
  | _, _ => []

theorem faults_nil (slots : List Slot) : faults slots [] = [] := by
  match slots with
  | [] => rfl
  | .text :: _ => rfl
  | .checked _ :: _ => rfl

theorem faults_suited {slot : Slot} {text : List Char} {value : ArgumentValue}
    (read : slot.read? text = some value) (slots : List Slot) (rest : List (List Char)) :
    faults (slot :: slots) (text :: rest) = faults slots rest := by
  cases slot with
  | text => rfl
  | checked kind =>
    rw [Slot.read?] at read
    rw [faults, read, Option.isSome_some, if_pos rfl]

theorem exists_kind {slot : Slot} {text : List Char} (unread : slot.read? text = none)
    (slots : List Slot) (rest : List (List Char)) :
    ∃ kind, slot = .checked kind ∧
      faults (slot :: slots) (text :: rest) = (kind, text) :: faults slots rest := by
  cases slot with
  | text => cases unread
  | checked kind =>
    rw [Slot.read?] at unread
    refine ⟨kind, rfl, ?_⟩
    rw [faults, unread, Option.isSome_none, if_neg Bool.false_ne_true]

theorem faults_of_placed {slots : List Slot} {arguments : List (List Char)}
    {values : List ArgumentValue}
    (placed : List.zipWith Slot.read? slots arguments = values.map some) :
    faults slots arguments = [] := by
  induction slots generalizing arguments values with
  | nil => rfl
  | cons slot slots ih =>
    cases arguments with
    | nil => exact faults_nil _
    | cons text rest =>
      cases values with
      | nil => cases placed
      | cons value others =>
        rw [List.zipWith_cons_cons, List.map_cons, List.cons.injEq] at placed
        rw [faults_suited placed.1]
        exact ih placed.2

def readSlot (route : Route) (slot : Slot) : Reading ArgumentValue := do
  let text ← next route
  match slot with
  | .text => pure (.text (String.ofList text))
  | .checked kind => accept kind text (kind.read? text)

theorem map_accept {α β : Type} (f : α → β) (kind : ArgumentKind) (text : List Char)
    (value : Option α) : f <$> accept kind text value = accept kind text (value.map f) := by
  cases value <;> rfl

theorem text_nextText (route : Route) : ArgumentValue.text <$> nextText route = readSlot route .text := by
  simp only [nextText, readSlot, map_bind, map_pure]

theorem id_nextId (route : Route) :
    ArgumentValue.id <$> nextId route = readSlot route (.checked .personId) := by
  simp only [nextId, readSlot, map_bind, map_accept]
  rfl

theorem number_nextNumber (route : Route) (kind : ArgumentKind)
    (numeric : ∀ text, kind.read? text = (Numeral.readWord? text).map .number) :
    ArgumentValue.number <$> nextNumber route kind = readSlot route (.checked kind) := by
  simp only [nextNumber, readSlot, map_bind, map_accept, numeric]

theorem coordinate_nextCoordinate (route : Route) (kind : ArgumentKind)
    (placed : ∀ text, kind.read? text = (Numeral.readCoordinate? text).map .coordinate) :
    ArgumentValue.coordinate <$> nextCoordinate route kind = readSlot route (.checked kind) := by
  simp only [nextCoordinate, readSlot, map_bind, map_accept, placed]

theorem values_read (route : Route) :
    Request.values <$> read route = route.slots.mapM (readSlot route) := by
  have message := number_nextNumber route .messageNumber fun _ => rfl
  have tile := number_nextNumber route .tileNumber fun _ => rfl
  have across := coordinate_nextCoordinate route .xCoordinate fun _ => rfl
  have down := coordinate_nextCoordinate route .yCoordinate fun _ => rfl
  cases route <;>
    simp only [read, Route.slots, List.mapM_cons, List.mapM_nil, ← text_nextText, ← id_nextId,
      ← message, ← tile, ← across, ← down, map_bind, map_pure, bind_map_left, pure_bind, bind_assoc,
      Request.values]

variable (route : Route)

theorem run_suited {slot : Slot} {text : List Char} {value : ArgumentValue}
    (read : slot.read? text = some value) (slots : List Slot) (rest : List (List Char)) :
    ((slot :: slots).mapM (readSlot route)).run (text :: rest) =
      ((slots.mapM (readSlot route)).run rest).map fun found => (value :: found.1, found.2) := by
  have first : (readSlot route slot).run (text :: rest) = .ok (value, rest) := by
    cases slot with
    | text =>
      obtain rfl := Option.some.inj read
      rfl
    | checked kind =>
      show (accept kind text (Slot.read? (.checked kind) text)).run rest = _
      rw [read]
      rfl
  rw [List.mapM_cons, StateT.run_bind, first]
  rfl

theorem run_faults (slots : List Slot) (arguments : List (List Char)) (kind : ArgumentKind)
    (text : List Char) (fault : (faults slots arguments).head? = some (kind, text)) :
    (slots.mapM (readSlot route)).run arguments =
      .error (.invalidArgument kind (String.ofList text)) := by
  induction slots generalizing arguments with
  | nil => cases fault
  | cons slot slots ih =>
    cases arguments with
    | nil =>
      rw [faults_nil] at fault
      cases fault
    | cons argument rest =>
      cases read : slot.read? argument with
      | some value =>
        rw [faults_suited read] at fault
        rw [run_suited route read, ih rest fault]
        rfl
      | none =>
        obtain ⟨first, rfl, here⟩ := exists_kind read slots rest
        rw [here, List.head?_cons, Option.some.injEq, Prod.mk.injEq] at fault
        obtain ⟨rfl, rfl⟩ := fault
        have stops : (readSlot route (.checked first)).run (argument :: rest) =
            .error (.invalidArgument first (String.ofList argument)) := by
          show (accept first argument (Slot.read? (.checked first) argument)).run rest = _
          rw [read]
          rfl
        rw [List.mapM_cons, StateT.run_bind, stops]
        rfl

theorem run_missing (slots : List Slot) (arguments : List (List Char))
    (suit : faults slots arguments = []) (few : arguments.length < slots.length) :
    (slots.mapM (readSlot route)).run arguments = .error (.missingArgument route) := by
  induction slots generalizing arguments with
  | nil => cases few
  | cons slot slots ih =>
    cases arguments with
    | nil =>
      rw [List.mapM_cons]
      rfl
    | cons argument rest =>
      cases read : slot.read? argument with
      | some value =>
        rw [faults_suited read] at suit
        rw [run_suited route read, ih rest suit (Nat.lt_of_succ_lt_succ few)]
        rfl
      | none =>
        obtain ⟨_, _, here⟩ := exists_kind read slots rest
        rw [here] at suit
        cases suit

theorem run_enough (slots : List Slot) (arguments : List (List Char))
    (suit : faults slots arguments = []) (enough : slots.length ≤ arguments.length) :
    ∃ values, List.zipWith Slot.read? slots arguments = values.map some ∧
      (slots.mapM (readSlot route)).run arguments = .ok (values, arguments.drop slots.length) := by
  induction slots generalizing arguments with
  | nil => exact ⟨[], by simp, rfl⟩
  | cons slot slots ih =>
    cases arguments with
    | nil => cases enough
    | cons argument rest =>
      cases read : slot.read? argument with
      | some value =>
        rw [faults_suited read] at suit
        obtain ⟨values, placed, run⟩ := ih rest suit (Nat.le_of_succ_le_succ enough)
        refine ⟨value :: values, ?_, ?_⟩
        · rw [List.zipWith_cons_cons, read, placed, List.map_cons]
        · rw [run_suited route read, run]
          rfl
      | none =>
        obtain ⟨_, _, here⟩ := exists_kind read slots rest
        rw [here] at suit
        cases suit

variable {route}

theorem route_of_read {route : Route} {arguments rest : List (List Char)} {request : Request}
    (found : (read route).run arguments = .ok (request, rest)) : request.route = route := by
  have named : Request.route <$> read route = (fun _ => route) <$> read route := by
    cases route <;> simp only [read, map_bind, map_pure, Request.route]
  have run := congrArg (fun reading => StateT.run reading arguments) named
  simp only [StateT.run_map, found] at run
  exact congrArg Prod.fst (Except.ok.inj run)

theorem read_error {route : Route} {arguments : List (List Char)} {error : RequestError}
    (stops : (route.slots.mapM (readSlot route)).run arguments = .error error) :
    (read route).run arguments = .error error := by
  rw [← values_read, StateT.run_map] at stops
  cases result : (read route).run arguments with
  | error other =>
    rw [result] at stops
    exact congrArg Except.error (Except.error.inj stops)
  | ok found =>
    rw [result] at stops
    cases stops

theorem read_ok {route : Route} {arguments rest : List (List Char)} {values : List ArgumentValue}
    (places : (route.slots.mapM (readSlot route)).run arguments = .ok (values, rest)) :
    ∃ request : Request, request.route = route ∧ request.values = values ∧
      (read route).run arguments = .ok (request, rest) := by
  rw [← values_read, StateT.run_map] at places
  cases result : (read route).run arguments with
  | error other =>
    rw [result] at places
    cases places
  | ok found =>
    rw [result] at places
    obtain ⟨rfl, rfl⟩ := Prod.mk.inj (Except.ok.inj places)
    exact ⟨found.1, route_of_read result, rfl, rfl⟩

/-- How a route takes its arguments in order. Their number decides when they all suit their
places, up to the number of places; else the first that does not suit is named. -/
structure ReadInOrder (route : Route) (arguments : List (List Char))
    (verdict : Except RequestError Request) : Prop where
  missing : verdict = .error (.missingArgument route) ↔
    faults route.slots arguments = [] ∧ arguments.length < route.slots.length
  tooMany : verdict = .error (.tooManyArguments route) ↔
    faults route.slots arguments = [] ∧ route.slots.length < arguments.length
  invalid : ∀ kind text, verdict = .error (.invalidArgument kind (String.ofList text)) ↔
    (faults route.slots arguments).head? = some (kind, text)
  accepted : (∃ request, verdict = .ok request) ↔
    faults route.slots arguments = [] ∧ arguments.length = route.slots.length
  placed : ∀ request, verdict = .ok request → request.route = route ∧
    List.zipWith Slot.read? route.slots arguments = request.values.map some

theorem readInOrder (route : Route) (arguments : List (List Char)) :
    ReadInOrder route arguments (((read route).run arguments).bind fun found =>
      if found.2.isEmpty then .ok found.1 else .error (.tooManyArguments route)) := by
  cases fault : (faults route.slots arguments).head? with
  | some first =>
    obtain ⟨kind, text⟩ := first
    have faulty : faults route.slots arguments ≠ [] := by
      intro none
      rw [none] at fault
      cases fault
    rw [read_error (run_faults route _ arguments kind text fault)]
    constructor <;> simp [Except.bind, faulty, fault, String.ofList_inj]
  | none =>
    have suit := List.head?_eq_none_iff.1 fault
    by_cases few : arguments.length < route.slots.length
    · rw [read_error (run_missing route _ arguments suit few)]
      constructor
      all_goals simp [Except.bind, suit, few]
      all_goals omega
    obtain ⟨values, placed, run⟩ := run_enough route route.slots arguments suit (by omega)
    obtain ⟨request, named, carried, found⟩ := read_ok run
    rw [found]
    by_cases more : route.slots.length < arguments.length
    · have left : (arguments.drop route.slots.length).isEmpty = false := by
        simpa using more
      constructor
      all_goals simp [Except.bind, suit, left, more]
      all_goals omega
    · have exact : arguments.length = route.slots.length := by omega
      have left : (arguments.drop route.slots.length).isEmpty = true := by
        simp [exact]
      constructor
      all_goals simp [Except.bind, suit, left, exact, named, carried, placed]

end Request

end TileRoom
