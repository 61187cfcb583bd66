import TileRoom.Proofs.HeadJudging
import TileRoom.Proofs.Hearing
import TileRoom.Proofs.Serving
import TileRoom.Request.Head

/-! A client and a server that shake hands. The head of a request has three lines, which
are neither folded nor broken, so all that can be wrong with it is the length of the first. -/

namespace TileRoom

namespace Key

theorem ofNonce_visible (nonce : Bytes) :
    ∀ c ∈ ofNonce nonce, ResponseHead.InLine c ∧ Blank.isBlank c = false :=
  ResponseHead.acceptToken_chars nonce

theorem hash_ofNonce (nonce : Bytes) :
    hash (String.ofList (ofNonce nonce)) = hashBytes (Utf8.encode (ofNonce nonce)) := by
  rw [hash, String.toList_ofList, Blank.trim_visible _ fun c member => (ofNonce_visible nonce c member).2]

theorem trimWhere_ofNonce (nonce : Bytes) :
    Blank.trimWhere Head.isBlank (Utf8.encode (ofNonce nonce)) = Utf8.encode (ofNonce nonce) := by
  have blanks : ∀ value < 0x80, Blank.isBlank (Char.ofNat value) = false → Head.isBlank (UInt8.ofNat value) = false := by
    decide
  apply Blank.trimWhere_kept
  intro byte member
  rw [Utf8.encode_ascii _ fun c inside => (ofNonce_visible nonce c inside).1.1] at member
  obtain ⟨c, inside, rfl⟩ := List.mem_map.1 member
  obtain ⟨⟨ascii, -⟩, visible⟩ := ofNonce_visible nonce c inside
  exact blanks c.toNat ascii (by rwa [Char.ofNat_toNat])

end Key

namespace Request

def line (request : Request) : Bytes :=
  Utf8.encode ("GET ".toList ++ request.target ++ " HTTP/1.1".toList)

def hostLine (host : String) : Bytes :=
  Utf8.encode ("Host: ".toList ++ host.toList)

def keyLine (key : String) : Bytes :=
  Utf8.encode ("Sec-WebSocket-Key: ".toList ++ key.toList)

theorem encode_head (request : Request) (host key : String) :
    Utf8.encode (request.head host key) = Head.text [request.line, hostLine host, keyLine key, []] := by
  have first : " HTTP/1.1\r\nHost: ".toList = " HTTP/1.1".toList ++ ("\r\n".toList ++ "Host: ".toList) := by
    decide +kernel
  have second : "\r\nSec-WebSocket-Key: ".toList = "\r\n".toList ++ "Sec-WebSocket-Key: ".toList := by
    decide +kernel
  have last : "\r\n\r\n".toList = "\r\n".toList ++ "\r\n".toList := by decide +kernel
  have lineEnd : Utf8.encode "\r\n".toList = Head.lineEnd := by decide +kernel
  -- For any texts, since rewriting would compare the given ones with each other.
  have whole {get target version hostName host keyName key ended toHost toKey final : List Char}
      (host_eq : toHost = version ++ (ended ++ hostName)) (key_eq : toKey = ended ++ keyName)
      (final_eq : final = ended ++ ended) (ended_eq : Utf8.encode ended = Head.lineEnd) :
      Utf8.encode (get ++ target ++ toHost ++ host ++ toKey ++ key ++ final) =
        Head.text [Utf8.encode (get ++ target ++ version), Utf8.encode (hostName ++ host),
          Utf8.encode (keyName ++ key), []] := by
    rw [host_eq, key_eq, final_eq]
    simp only [Head.text, List.flatMap_cons, List.flatMap_nil, Utf8.encode_append, ended_eq, List.append_assoc,
      List.nil_append, List.append_nil]
  exact whole first second last lineEnd

theorem target_visible (request : Request) : ∀ c ∈ request.target, 0x20 < c.toNat ∧ c.toNat < 0x80 := by
  have names (route : Route) : ∀ c ∈ route.name.toList, 0x20 < c.toNat ∧ c.toNat < 0x80 := by
    cases route <;> decide
  have query (texts : List (List Char)) :
      ∀ c ∈ List.intercalate ['&'] (texts.map Form.encode), 0x20 < c.toNat ∧ c.toNat < 0x80 := by
    induction texts with
    | nil => simp
    | cons text rest ih =>
      have here (c : Char) (member : c ∈ Form.encode text) : 0x20 < c.toNat ∧ c.toNat < 0x80 := by
        obtain ⟨ascii, _, _, visible⟩ := Form.encode_plain text c member
        exact ⟨visible, ascii⟩
      cases rest with
      | nil =>
        rw [List.map_cons, List.map_nil, List.intercalate_singleton]
        exact here
      | cons second others =>
        intro c member
        rw [List.map_cons, List.map_cons, List.intercalate_cons_cons, List.append_assoc] at member
        rcases List.mem_append.1 member with first | later
        · exact here c first
        · rcases List.mem_cons.1 later with rfl | last
          · decide
          · exact ih c last
  intro c member
  rcases List.mem_append.1 member with route | rest
  · rcases List.mem_cons.1 route with rfl | name
    · decide
    · exact names _ c name
  · rcases List.mem_cons.1 rest with rfl | arguments
    · decide
    · exact query _ c arguments

theorem not_mem_target (request : Request) (c : Char) (blank : c.toNat ≤ 0x20) : c ∉ request.target := by
  intro member
  have visible := request.target_visible c member
  omega

theorem line_unbroken (request : Request) : Head.Unbroken request.line := by
  apply Head.unbroken_of_plain
  refine Utf8.not_mem_encode (c := '\r') (by decide) ?_
  rw [List.mem_append, List.mem_append, not_or, not_or]
  exact ⟨⟨by decide, request.not_mem_target _ (by decide)⟩, by decide⟩

theorem hostLine_unbroken {host : String} (oneLine : '\r' ∉ host.toList) : Head.Unbroken (hostLine host) := by
  apply Head.unbroken_of_plain
  refine Utf8.not_mem_encode (c := '\r') (by decide) ?_
  rw [List.mem_append, not_or]
  exact ⟨by decide, oneLine⟩

theorem keyLine_unbroken {key : String} (oneLine : '\r' ∉ key.toList) : Head.Unbroken (keyLine key) := by
  apply Head.unbroken_of_plain
  refine Utf8.not_mem_encode (c := '\r') (by decide) ?_
  rw [List.mem_append, not_or]
  exact ⟨by decide, oneLine⟩

theorem line_eq (request : Request) : request.line =
    Utf8.encode "GET".toList ++ 0x20 :: (Utf8.encode request.target ++ 0x20 :: Utf8.encode "HTTP/1.1".toList) := by
  have get : Utf8.encode "GET ".toList = Utf8.encode "GET".toList ++ [0x20] := by decide
  have version : Utf8.encode " HTTP/1.1".toList = 0x20 :: Utf8.encode "HTTP/1.1".toList := by decide
  rw [line, Utf8.encode_append, Utf8.encode_append, get, version]
  simp only [List.append_assoc, List.cons_append, List.nil_append]

theorem hostLine_eq (host : String) : hostLine host = bytesOf "Host: " ++ Utf8.encode host.toList :=
  Utf8.encode_append _ _

theorem keyLine_eq (key : String) :
    keyLine key = bytesOf "Sec-WebSocket-Key:" ++ 0x20 :: Utf8.encode key.toList := by
  have name : Utf8.encode "Sec-WebSocket-Key: ".toList = bytesOf "Sec-WebSocket-Key:" ++ [0x20] := by decide
  rw [keyLine, Utf8.encode_append, name, List.append_assoc, List.singleton_append]

theorem keyLine_ne_nil (key : String) : keyLine key ≠ [] := by
  rw [keyLine_eq]
  exact List.append_ne_nil_of_right_ne_nil _ (List.cons_ne_nil _ _)

theorem keyLine_fresh (key : String) : (keyLine key).head? ≠ some 0x20 := by
  rw [keyLine_eq]
  exact fun same => absurd (Option.some.inj same) (by decide)

theorem readRequest_line (request : Request) :
    Head.readRequest request.line = .ok ⟨"GET", String.ofList request.target⟩ := by
  have method : (0x20 : UInt8) ∉ Utf8.encode "GET".toList := by decide
  have target : (0x20 : UInt8) ∉ Utf8.encode request.target :=
    Utf8.not_mem_encode (c := ' ') (by decide) (request.not_mem_target _ (by decide))
  have version : (Utf8.encode "HTTP/1.1".toList).take 7 = bytesOf "HTTP/1." ∧
      (Utf8.encode "HTTP/1.1".toList).drop 7 ≠ [] ∧
      ((Utf8.encode "HTTP/1.1".toList).drop 7).all Head.isDigit := by
    decide
  rw [← Head.requestLine_eq, line_eq, Head.requestLine, Cut.first?_append _ _ method]
  simp only [Cut.first?_append _ _ target, if_pos version, Utf8.decodeLossy_encode]
  rfl

theorem readHeader_hostLine (host : String) : Head.readHeader none (hostLine host) = .ok none := by
  have colon : 0x3A ∈ hostLine host := by
    rw [hostLine_eq]
    exact List.mem_append_left _ (by decide)
  have other : ¬Head.keyHeader <+: (hostLine host).map Head.lower := by
    rw [hostLine_eq]
    rintro ⟨rest, whole⟩
    have first : some (0x73 : UInt8) = some 0x68 := congrArg List.head? whole
    exact absurd first (by decide)
  rw [Head.readHeader, if_neg (not_not.2 colon), if_pos other]

theorem readHeader_keyLine (key : String) :
    Head.readHeader none (keyLine key) = .ok (some (Blank.trimWhere Head.isBlank (Utf8.encode key.toList))) := by
  rw [keyLine_eq]
  have colon : 0x3A ∈ bytesOf "Sec-WebSocket-Key:" ++ 0x20 :: Utf8.encode key.toList :=
    List.mem_append_left _ (by decide)
  have named : Head.keyHeader <+:
      (bytesOf "Sec-WebSocket-Key:" ++ 0x20 :: Utf8.encode key.toList).map Head.lower := by
    rw [List.map_append]
    exact ⟨_, congrArg (· ++ _) (by decide)⟩
  have value : (bytesOf "Sec-WebSocket-Key:" ++ 0x20 :: Utf8.encode key.toList).drop Head.keyHeader.length =
      0x20 :: Utf8.encode key.toList :=
    List.drop_left' (by decide)
  rw [Head.readHeader, if_neg (not_not.2 colon), if_neg (not_not.2 named), if_neg (by simp), value,
    Blank.trimWhere_cons _ _ _ (by decide)]

theorem keyLine_length {nonce : Bytes} (sixteen : nonce.length = 16) :
    (keyLine (String.ofList (Key.ofNonce nonce))).length = 43 := by
  have ascii := Utf8.encode_ascii (Key.ofNonce nonce) fun c member => (Key.ofNonce_visible nonce c member).1.1
  have name : (bytesOf "Sec-WebSocket-Key:").length = 18 := by decide
  rw [keyLine_eq, String.toList_ofList, List.length_append, List.length_cons, ascii, List.length_map, Key.ofNonce,
    Base64.encode_length, sixteen, name]

theorem verdict_head (request : Request) {host key : String} {nonce : Bytes} (oneLine : '\r' ∉ host.toList)
    (short : (hostLine host).length ≤ Head.maxLine) (sixteen : nonce.length = 16)
    (made : key = String.ofList (Key.ofNonce nonce)) :
    HeadReader.verdict (({} : HeadReader).feed (Utf8.encode (request.head host key))) =
      some (if request.line.length ≤ Head.maxLine then
        .finished (Utf8.encode (request.head host key)).length ⟨"GET", String.ofList request.target⟩ (Key.hash key)
      else .failed .lineTooLong) := by
  have plain : '\r' ∉ key.toList := by
    rw [made, String.toList_ofList]
    exact fun member => (Key.ofNonce_visible nonce _ member).1.2 rfl
  have each : ∀ line ∈ [request.line, hostLine host, keyLine key, []], Head.Unbroken line := by
    simp only [List.forall_mem_cons]
    exact ⟨request.line_unbroken, hostLine_unbroken oneLine, keyLine_unbroken plain, Head.unbroken_nil, by simp⟩
  have read := HeadReader.verdict_lines _ each Head.unbroken_nil []
  have first : request.line ≠ [] := by
    rw [line_eq]
    exact List.append_ne_nil_of_right_ne_nil _ (List.cons_ne_nil _ _)
  have second : hostLine host ≠ [] := by
    rw [hostLine_eq]
    exact List.append_ne_nil_of_left_ne_nil (by decide) _
  have headers : Head.headerLines [hostLine host, keyLine key, []] [] = [hostLine host, keyLine key] := by
    rw [Head.headerLines_cons second, Head.headerLines_cons (keyLine_ne_nil key), Head.headerLines_ended]
  have fits : (keyLine key).length ≤ Head.maxLine := by
    rw [made, keyLine_length sixteen]
    decide
  have used : (Head.text [request.line]).length + Head.headerLength [hostLine host, keyLine key, []] =
      (Utf8.encode (request.head host key)).length := by
    have ended : Head.headerLength [[]] = 2 := by decide
    have lineEnd : Head.lineEnd.length = 2 := rfl
    have nothing : (Head.text []).length = 0 := rfl
    rw [encode_head, Head.headerLength_cons second, Head.headerLength_cons (keyLine_ne_nil key), ended]
    simp only [Head.text_cons, List.length_append, List.length_nil, lineEnd, nothing]
  rw [List.append_nil, List.nil_append, ← encode_head, List.takeWhile_cons_of_neg (by simpa using first),
    List.dropWhile_cons_of_neg (by simpa using first), Head.judgeRequest] at read
  refine read.trans (congrArg some ?_)
  by_cases room : request.line.length ≤ Head.maxLine
  · rw [if_pos room, if_neg (by omega), readRequest_line]
    simp only [List.nil_append]
    rw [used, headers, Head.joined, Head.judgeHeaders_joinFrom short _ (by simp) (by simpa using keyLine_fresh key),
      readHeader_hostLine]
    simp only
    rw [Head.joined, Head.judgeHeaders_joinFrom fits _ (by simp) (by simp), made, readHeader_keyLine]
    simp only
    rw [Head.joined, Head.judgeHeaders, if_pos (by simp), Head.judgeKey, String.toList_ofList, Key.trimWhere_ofNonce,
      Key.hash_ofNonce, Key.hashBytes]
  · rw [if_neg room, if_pos (by omega)]

end Request

namespace ResponseHead

/-- What a server answers a key with: the first bytes of the response, its status, whether it
comes in chunks, and how the first bytes go on behind the head. -/
inductive Answers (hash : Key.Hash) : Bytes → Nat → Bool → Bytes → Prop where
  | stream : Answers hash (WatchStream.opening (some hash)) 200 true
      (Frame.paddingTexts.flatMap fun text => Chunk.frame (bytesOf text))
  | ok : Answers hash (Reply.ok (some hash)).data 200 false (bytesOf "ok\n")
  | badRequest : Answers hash (Reply.badRequest (some hash)).data 400 false (bytesOf "bad request\n")
  | notFound : Answers hash (Reply.notFound (some hash)).data 404 false (bytesOf "not found\n")

theorem parse_replyLines (status body : String) (hash : Key.Hash) (code : Nat)
    (plain : ∀ c ∈ status.toList, InLine c)
    (word : status? ("HTTP/1.1 ".toList ++ status.toList) = some code) (rest : Bytes) :
    parse (bytesOfLines (replyLines status body hash) ++ rest) =
      .ok (some (⟨code, some (String.ofList (Key.acceptToken hash)), false⟩,
        (bytesOfLines (replyLines status body hash)).length)) := by
  have nonempty : replyLines status body hash ≠ [] := List.cons_ne_nil _ _
  have first : status? ((replyLines status body hash).headD []) = some code := word
  have common := takeUp_common { status := code }
  simp only [List.forall_mem_cons] at common
  have length (head : ResponseHead) :
      head.takeUp ("Content-Length: ".toList ++ Numeral.decimal (bytesOf body).length) = head := rfl
  have type (head : ResponseHead) : head.takeUp "Content-Type: text/plain; charset=UTF-8".toList = head := rfl
  rw [parse_bytesOfLines _ nonempty (replyLines_lines status body hash plain), first]
  simp only [replyLines, linesOf, List.tail_cons, List.foldl_cons, List.foldl_nil, common, takeUp_accept, length, type]

theorem Answers.parse {hash : Key.Hash} {start body : Bytes} {status : Nat} {chunked : Bool}
    (answers : Answers hash start status chunked body) :
    ∃ head, EndsFirst head ∧ start = head ++ ending ++ body ∧ ∀ rest, parse (start ++ rest) =
      .ok (some (⟨status, some (String.ofList (Key.acceptToken hash)), chunked⟩, (head ++ ending).length)) := by
  have reply (status body : String) (code : Nat) (plain : ∀ c ∈ status.toList, InLine c)
      (word : status? ("HTTP/1.1 ".toList ++ status.toList) = some code) :
      ∃ head, EndsFirst head ∧ (Reply.ofBody status (some hash) body).data = head ++ ending ++ bytesOf body ∧
        ∀ rest, ResponseHead.parse ((Reply.ofBody status (some hash) body).data ++ rest) =
          .ok (some (⟨code, some (String.ofList (Key.acceptToken hash)), false⟩, (head ++ ending).length)) := by
    refine ⟨_, endsFirst_joined _ (replyLines_lines status body hash plain), reply_data status body hash, ?_⟩
    intro rest
    rw [reply_data, List.append_assoc]
    exact parse_replyLines status body hash code plain word _
  cases answers with
  | stream =>
    refine ⟨_, endsFirst_joined _ (watchLines_lines hash), opening_eq hash, fun rest => ?_⟩
    rw [opening_eq, List.append_assoc]
    exact parse_watchLines hash _
  | ok => exact reply "200 OK" "ok\n" 200 (by decide) (by decide +kernel)
  | badRequest => exact reply "400 Bad Request" "bad request\n" 400 (by decide) (by decide +kernel)
  | notFound => exact reply "404 Not Found" "not found\n" 404 (by decide) (by decide +kernel)

theorem Answers.chunked_iff {hash : Key.Hash} {start body : Bytes} {status : Nat} {chunked : Bool}
    (answers : Answers hash start status chunked body) :
    chunked = true ↔ start = WatchStream.opening (some hash) := by
  constructor
  · intro chunks
    cases answers with
    | stream => rfl
    | ok | badRequest | notFound => cases chunks
  · intro same
    obtain ⟨_, -, -, read⟩ := answers.parse
    obtain ⟨_, -, -, granted⟩ := (Answers.stream : Answers hash _ _ _ _).parse
    have both := read []
    rw [same, granted []] at both
    exact (congrArg ResponseHead.chunked (congrArg Prod.fst (Option.some.inj (Except.ok.inj both)))).symm

end ResponseHead

namespace Registry

open ResponseHead (Answers)

def start? (registry : Registry) : Response → Option Bytes
  | .reply reply => some reply.data
  | .stream num watch => (registry.stream? num watch).map (·.head)

def Answered (hash : Key.Hash) (found : Routed × Registry) : Prop :=
  ∃ start status chunked body, found.2.start? found.1.response = some start ∧
    Answers hash start status chunked body

variable (registry : Registry) (hash : Key.Hash)

theorem answered_ok : Answered hash (.ofReply (.ok (some hash)), registry) :=
  ⟨_, _, _, _, rfl, .ok⟩

theorem answered_notFound : Answered hash (.ofReply (.notFound (some hash)), registry) :=
  ⟨_, _, _, _, rfl, .notFound⟩

theorem start?_watch (person : Person) {room : Room} (there : registry.lobby.room? person.room = some room)
    (lastMessage : Nat) (keyHash : Option Key.Hash) :
    let granted := registry.watch person lastMessage keyHash
    granted.2.start? granted.1.response = some (WatchStream.opening keyHash) := by
  have opened := Room.stream?_watch room person.id person.player lastMessage keyHash room.nextWatch
  rw [if_pos rfl] at opened
  unfold watch
  simp only [there, start?, stream?]
  rw [Lobby.room?_setRoom, if_pos rfl, there, Option.map_some, Option.bind_some]
  exact congrArg (Option.map (·.head)) opened

theorem answered_watch (person : Person) (lastMessage : Nat) :
    Answered hash (registry.watch person lastMessage (some hash)) := by
  cases there : registry.lobby.room? person.room with
  | none =>
    unfold watch
    simp only [there]
    exact answered_notFound registry hash
  | some room => exact ⟨_, _, _, _, registry.start?_watch person there lastMessage (some hash), .stream⟩

theorem answered_perform (request : Request) (id : PersonId) (now : Nat) :
    Answered hash (registry.perform request id (some hash) now) := by
  unfold perform
  split
  · exact answered_notFound _ hash
  · exact answered_ok _ hash

theorem answered_route (target : String) (remote : Address) (now : Nat) (draw : Draw) :
    Answered hash (registry.route target (some hash) remote now draw) := by
  unfold route
  split
  · rename_i request parsed
    cases request with
    | newPerson room name =>
      simp only [answer]
      split
      · exact answered_watch _ hash _ _
      · exact answered_notFound _ hash
    | watchPerson id lastMessage =>
      simp only [answer]
      split
      · exact answered_watch _ hash _ _
      · exact answered_notFound _ hash
    | leave id =>
      simp only [answer]
      split
      · exact answered_ok _ hash
      · exact answered_notFound _ hash
    | sendMessage | startTyping | stopTyping | keepAlive | shout | turn | moveTile =>
      exact answered_perform _ hash _ _ now
  · exact answered_notFound _ hash
  · exact ⟨_, _, _, _, rfl, .badRequest⟩

end Registry

open ResponseHead (Answers EndsFirst ending parse)

/-- A client and a server agree on a handshake. The server reads the target and the key that
were sent unless the request line is too long, all it answers the key with is read by the
client as it was meant, and a stream is accepted. -/
theorem handshake_agrees (request : Request) (host : String) (nonce : Bytes) (oneLine : '\r' ∉ host.toList)
    (short : (Request.hostLine host).length ≤ Head.maxLine) (sixteen : nonce.length = 16) :
    let key := String.ofList (Key.ofNonce nonce)
    let hash := Key.hash key
    let head := Utf8.encode (request.head host key)
    (∀ pieces : List Bytes, pieces.flatten = head →
      ((HeadReader.feedAll {} pieces).1 = .finished head.length ∧
          (HeadReader.feedAll {} pieces).2.target = String.ofList request.target ∧
          (HeadReader.feedAll {} pieces).2.keyHash = some hash ↔ request.line.length ≤ Head.maxLine) ∧
        (Head.maxLine < request.line.length → (HeadReader.feedAll {} pieces).1 = .failed .lineTooLong)) ∧
      (∀ (registry : Registry) (target : String) (remote : Address) (now : Nat) (draw : Draw),
        Registry.Answered hash (registry.route target (some hash) remote now draw)) ∧
      ∀ start status chunked body, Answers hash start status chunked body →
        (∃ before, EndsFirst before ∧ start = before ++ ending ++ body ∧ ∀ rest, parse (start ++ rest) =
          .ok (some (⟨status, some (String.ofList (Key.acceptToken hash)), chunked⟩, (before ++ ending).length))) ∧
        (chunked = true ↔ start = WatchStream.opening (some hash)) ∧
        (chunked = true → (IncomingStream.ofKey key).check
          ⟨status, some (String.ofList (Key.acceptToken hash)), chunked⟩ = .ok ()) := by
  intro key hash head
  refine ⟨fun pieces whole => ?_, fun registry target remote now draw => registry.answered_route hash target remote now
    draw, fun start status chunked body answers => ⟨answers.parse, answers.chunked_iff, ?_⟩⟩
  · have read := request.verdict_head oneLine short sixteen rfl
    have all : HeadReader.feedAll {} pieces = ({} : HeadReader).feed head := by
      rw [HeadReader.feedAll_eq rfl, whole]
    rw [all]
    by_cases room : request.line.length ≤ Head.maxLine
    · rw [if_pos room] at read
      exact ⟨iff_of_true (HeadReader.of_verdict_finished read) room, fun long => absurd room (by omega)⟩
    · rw [if_neg room] at read
      have failed := HeadReader.of_verdict_failed read
      refine ⟨iff_of_false (fun found => ?_) room, fun _ => failed⟩
      rw [failed] at found
      exact HeadProgress.noConfusion found.1
  · intro chunks
    cases answers with
    | stream => exact IncomingStream.check_granted key
    | ok | badRequest | notFound => cases chunks

theorem lobby_handshake_agrees :
    let nonce : Bytes := List.replicate 16 0
    let head := Utf8.encode ((Request.newPerson "lobby" "Ann").head "localhost" (String.ofList (Key.ofNonce nonce)))
    '\r' ∉ "localhost".toList ∧ (Request.hostLine "localhost").length ≤ Head.maxLine ∧ nonce.length = 16 ∧
      ∀ pieces : List Bytes, pieces.flatten = head → (HeadReader.feedAll {} pieces).1 = .finished head.length := by
  have short : (Request.hostLine "localhost").length ≤ Head.maxLine := by decide
  have room : (Request.newPerson "lobby" "Ann").line.length ≤ Head.maxLine := by decide +kernel
  refine ⟨by decide, short, rfl, fun pieces whole => ?_⟩
  have agrees := handshake_agrees (.newPerson "lobby" "Ann") "localhost" (List.replicate 16 0) (by decide) short rfl
  exact ((agrees.1 pieces whole).1.2 room).1

end TileRoom
