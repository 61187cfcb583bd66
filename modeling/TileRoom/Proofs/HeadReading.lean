import Mathlib.Algebra.GroupWithZero.Nat
import TileRoom.Proofs.Text.Blanks
import TileRoom.Proofs.Text.Cuts
import TileRoom.Proofs.Text.Encoding
import TileRoom.Proofs.Text.Numerals
import TileRoom.Response.Reply
import TileRoom.Response.WatchStream

/-! The head of a response is found where it ends and is read as it was written. A head
that has not arrived to its end is waited for. -/

namespace TileRoom

namespace ResponseHead

def InLine (c : Char) : Prop :=
  c.toNat < 0x80 ∧ c ≠ '\r'

instance (c : Char) : Decidable (InLine c) :=
  inferInstanceAs (Decidable (_ ∧ _))

def IsLine (line : List Char) : Prop :=
  line ≠ [] ∧ ∀ c ∈ line, InLine c

def joined : List (List Char) → List Char
  | [] => []
  | [line] => line
  | line :: rest => line ++ '\r' :: '\n' :: joined rest

theorem lines_unended (line : List Char) (inLine : ∀ c ∈ line, InLine c) : lines line = [line] := by
  induction line with
  | nil => rfl
  | cons c rest ih =>
    obtain ⟨first, others⟩ := List.forall_mem_cons.1 inLine
    rw [lines.eq_def]
    split
    · rename_i none
      cases none
    · rename_i more same
      exact absurd (List.cons.inj same).1 first.2
    · rename_i d more usual same
      obtain ⟨rfl, rfl⟩ := List.cons.inj same
      rw [ih others]

theorem lines_ended (line after : List Char) (inLine : ∀ c ∈ line, InLine c) :
    lines (line ++ '\r' :: '\n' :: after) = line :: lines after := by
  induction line with
  | nil => rfl
  | cons c rest ih =>
    obtain ⟨first, others⟩ := List.forall_mem_cons.1 inLine
    rw [List.cons_append, lines.eq_def]
    split
    · rename_i none
      cases none
    · rename_i more same
      exact absurd (List.cons.inj same).1 first.2
    · rename_i d more usual same
      obtain ⟨rfl, rfl⟩ := List.cons.inj same
      rw [ih others]

theorem lines_joined (parts : List (List Char)) (nonempty : parts ≠ [])
    (each : ∀ line ∈ parts, IsLine line) : lines (joined parts) = parts := by
  fun_induction joined parts with
  | case1 => exact absurd rfl nonempty
  | case2 line => exact lines_unended line (each line (List.mem_singleton_self _)).2
  | case3 line rest several ih =>
    obtain ⟨first, others⟩ := List.forall_mem_cons.1 each
    have more : rest ≠ [] := fun none => several (by rw [none])
    rw [lines_ended line _ first.2, ih more others]

/-- A head ends at the first empty line. -/
def EndsFirst (head : Bytes) : Prop :=
  ∀ rest, Cut.around? ending (head ++ ending ++ rest) = some (head, rest)

theorem endsFirst_nil : EndsFirst [] := fun _ => rfl

theorem endsFirst_cons (byte : UInt8) (head : Bytes) (inside : byte ≠ 0x0D) (later : EndsFirst head) :
    EndsFirst (byte :: head) := fun rest => by
  rw [List.cons_append, List.cons_append, Cut.around?, later rest]
  have start : ¬ending.isPrefixOf (byte :: (head ++ ending ++ rest)) = true := by
    simp [ending, Ne.symm inside]
  rw [if_neg start]
  rfl

theorem endsFirst_append (line head : Bytes) (inside : ∀ byte ∈ line, byte ≠ 0x0D)
    (later : EndsFirst head) : EndsFirst (line ++ head) := by
  induction line with
  | nil => exact later
  | cons byte rest ih =>
    obtain ⟨first, others⟩ := List.forall_mem_cons.1 inside
    exact endsFirst_cons byte _ first (ih others)

theorem endsFirst_lineEnd (byte : UInt8) (head : Bytes) (inside : byte ≠ 0x0D)
    (later : EndsFirst (byte :: head)) : EndsFirst (0x0D :: 0x0A :: byte :: head) := fun rest => by
  have middle := endsFirst_cons 0x0A (byte :: head) (by decide) later rest
  rw [List.cons_append, List.cons_append, Cut.around?, middle]
  have start : ¬ending.isPrefixOf (0x0D :: (0x0A :: byte :: head ++ ending ++ rest)) = true := by
    simp [ending, Ne.symm inside]
  rw [if_neg start]
  rfl

theorem encode_line_bytes (line : List Char) (inLine : ∀ c ∈ line, InLine c) :
    ∀ byte ∈ Utf8.encode line, byte ≠ 0x0D := by
  intro byte member
  rw [Utf8.encode_ascii line fun c inside => (inLine c inside).1] at member
  obtain ⟨c, known, rfl⟩ := List.mem_map.1 member
  obtain ⟨ascii, noReturn⟩ := inLine c known
  intro same
  refine noReturn (Char.toNat_inj.1 ?_)
  have value := congrArg UInt8.toNat same
  rw [Utf8.toNat_ofNat _ (by omega)] at value
  exact value

theorem encode_joined_cons (parts : List (List Char)) (nonempty : parts ≠ [])
    (each : ∀ line ∈ parts, IsLine line) :
    ∃ byte more, Utf8.encode (joined parts) = byte :: more ∧ byte ≠ 0x0D := by
  have start (line after : List Char) (proper : IsLine line) :
      ∃ byte more, Utf8.encode (line ++ after) = byte :: more ∧ byte ≠ 0x0D := by
    obtain ⟨c, rest, rfl⟩ := List.exists_cons_of_ne_nil proper.1
    have first := encode_line_bytes [c] fun other member =>
      proper.2 other (List.mem_singleton.1 member ▸ List.mem_cons_self ..)
    have ascii := (proper.2 c (List.mem_cons_self ..)).1
    rw [Utf8.encode, List.flatMap_singleton, Utf8.encodeChar_ascii c ascii] at first
    refine ⟨UInt8.ofNat c.toNat, Utf8.encode (rest ++ after), ?_, first _ (List.mem_singleton_self _)⟩
    rw [Utf8.encode, List.cons_append, List.flatMap_cons, Utf8.encodeChar_ascii c ascii, ← Utf8.encode,
      List.singleton_append]
  cases parts with
  | nil => exact absurd rfl nonempty
  | cons line rest =>
    have proper := each line (List.mem_cons_self ..)
    cases rest with
    | nil =>
      obtain ⟨byte, more, form, inside⟩ := start line [] proper
      rw [List.append_nil] at form
      exact ⟨byte, more, form, inside⟩
    | cons second others => exact start line _ proper

theorem endsFirst_joined (parts : List (List Char)) (each : ∀ line ∈ parts, IsLine line) :
    EndsFirst (Utf8.encode (joined parts)) := by
  fun_induction joined parts with
  | case1 => exact endsFirst_nil
  | case2 line =>
    have bytes := encode_line_bytes line (each line (List.mem_singleton_self _)).2
    have whole := endsFirst_append _ [] bytes endsFirst_nil
    rwa [List.append_nil] at whole
  | case3 line rest several ih =>
    obtain ⟨first, others⟩ := List.forall_mem_cons.1 each
    obtain ⟨byte, more, form, inside⟩ :=
      encode_joined_cons rest (fun none => several (by rw [none])) others
    have later := ih others
    rw [form] at later
    rw [Utf8.encode_append]
    apply endsFirst_append _ _ (encode_line_bytes line first.2)
    change EndsFirst (0x0D :: 0x0A :: Utf8.encode (joined rest))
    rw [form]
    exact endsFirst_lineEnd byte more inside later

def bytesOfLines (parts : List (List Char)) : Bytes :=
  Utf8.encode (joined parts) ++ ending

theorem parse_bytesOfLines (parts : List (List Char)) (nonempty : parts ≠ [])
    (each : ∀ line ∈ parts, IsLine line) (rest : Bytes) :
    parse (bytesOfLines parts ++ rest) =
      match status? (parts.headD []) with
      | none => .error (.badStatusLine (String.ofList (parts.headD [])))
      | some status =>
          .ok (some (parts.tail.foldl takeUp { status }, (bytesOfLines parts).length)) := by
  rw [parse, bytesOfLines, endsFirst_joined parts each rest]
  simp only [Utf8.decode?_encode, ofText, lines_joined parts nonempty each]
  cases status? (parts.headD []) with
  | none => rfl
  | some status =>
    rw [List.length_append]
    rfl

theorem around?_part (parts : List (List Char)) (each : ∀ line ∈ parts, IsLine line) (data : Bytes)
    (part : data <+: bytesOfLines parts) (unfinished : data ≠ bytesOfLines parts) :
    Cut.around? ending data = none := by
  obtain ⟨more, whole⟩ := part
  cases found : Cut.around? ending data with
  | none => rfl
  | some parted =>
    have early := Cut.around?_append (by decide) found more
    have first := endsFirst_joined parts each []
    rw [List.append_nil, ← bytesOfLines, ← whole, early] at first
    have none := (List.append_eq_nil_iff.1 (Prod.mk.inj (Option.some.inj first)).2).2
    rw [none, List.append_nil] at whole
    exact absurd whole unfinished

theorem parse_part (parts : List (List Char)) (each : ∀ line ∈ parts, IsLine line)
    (short : (bytesOfLines parts).length ≤ maxLength) (data : Bytes)
    (part : data <+: bytesOfLines parts) (unfinished : data ≠ bytesOfLines parts) :
    parse data = .ok none := by
  have length := part.length_le
  rw [parse, around?_part parts each data part unfinished]
  exact if_neg (by omega)

/-- What is read from a head does not change when more arrives. -/
theorem parse_append {data : Bytes} {head : ResponseHead} {used : Nat}
    (parsed : parse data = .ok (some (head, used))) (more : Bytes) :
    parse (data ++ more) = .ok (some (head, used)) ∧
      (data ++ more).drop used = data.drop used ++ more := by
  cases found : Cut.around? ending data with
  | none =>
    rw [parse, found] at parsed
    simp only at parsed
    split at parsed <;> cases parsed
  | some parted =>
    obtain ⟨before, after⟩ := parted
    have whole := Cut.around?_eq_some found
    have still := Cut.around?_append (by decide) found more
    rw [parse, found] at parsed
    rw [parse, still]
    refine ⟨parsed, ?_⟩
    simp only at parsed
    cases text : Utf8.decode? before with
    | none => rw [text] at parsed; cases parsed
    | some text' =>
      rw [text] at parsed
      cases read : ofText text' with
      | error cause => simp [read, bind, Except.bind] at parsed
      | ok head' =>
        simp only [read, bind, Except.bind, pure, Except.pure, Except.ok.injEq, Option.some.injEq,
          Prod.mk.injEq] at parsed
        rw [List.drop_append_of_le_length]
        rw [← parsed.2, whole, List.length_append, List.length_append]
        omega

theorem status_takeUp (head : ResponseHead) (line : List Char) :
    (head.takeUp line).status = head.status := by
  unfold takeUp
  split
  · rfl
  · split
    · rfl
    · split <;> rfl

theorem status_foldl (parts : List (List Char)) (head : ResponseHead) :
    (parts.foldl takeUp head).status = head.status := by
  induction parts generalizing head with
  | nil => rfl
  | cons line rest ih => rw [List.foldl_cons, ih, status_takeUp]

def linesOf (status : String) (hash : Key.Hash) (extra : List (List Char)) : List (List Char) :=
  ("HTTP/1.1 ".toList ++ status.toList) :: "Cache-Control: no-cache".toList ::
    "Connection: close".toList :: "Access-Control-Allow-Origin: *".toList ::
      ("Sec-WebSocket-Accept: ".toList ++ Key.acceptToken hash) :: extra

theorem flatMap_lineEnd (parts : List (List Char)) (nonempty : parts ≠ []) :
    parts.flatMap (· ++ "\r\n".toList) = joined parts ++ "\r\n".toList := by
  fun_induction joined parts with
  | case1 => exact absurd rfl nonempty
  | case2 line => rw [List.flatMap_singleton]
  | case3 line rest several ih =>
    have more : rest ≠ [] := fun none => several (by rw [none])
    rw [List.flatMap_cons, ih more, List.append_assoc, List.append_assoc]
    rfl

theorem commonHeaders_lines : commonHeaders.toList =
    "Cache-Control: no-cache".toList ++ "\r\n".toList ++ ("Connection: close".toList ++
      "\r\n".toList) ++ ("Access-Control-Allow-Origin: *".toList ++ "\r\n".toList) := by
  rw [commonHeaders]
  repeat rw [String.toList_ofList]
  rfl

theorem encode_render (status : String) (hash : Key.Hash) (extra : List (List Char)) :
    Utf8.encode (render status (some hash) (extra.flatMap (· ++ "\r\n".toList))) =
      bytesOfLines (linesOf status hash extra) := by
  have whole := flatMap_lineEnd (linesOf status hash extra) (List.cons_ne_nil _ _)
  have regroup (version word cache close origin name token lineEnd rest : List Char) :
      version ++ word ++ lineEnd ++
            (cache ++ lineEnd ++ (close ++ lineEnd) ++ (origin ++ lineEnd)) ++
          (name ++ token ++ lineEnd) ++ rest ++ lineEnd =
        version ++ word ++ lineEnd ++ (cache ++ lineEnd ++ (close ++ lineEnd ++
          (origin ++ lineEnd ++ (name ++ token ++ lineEnd ++ rest)))) ++ lineEnd := by
    simp only [List.append_assoc]
  have ended : render status (some hash) (extra.flatMap (· ++ "\r\n".toList)) =
      joined (linesOf status hash extra) ++ "\r\n".toList ++ "\r\n".toList := by
    -- Rewriting would compare the text of the common headers with every other text.
    calc
      render status (some hash) (extra.flatMap (· ++ "\r\n".toList)) = _ :=
        congrArg (fun headers => "HTTP/1.1 ".toList ++ status.toList ++ "\r\n".toList ++ headers ++
          ("Sec-WebSocket-Accept: ".toList ++ Key.acceptToken hash ++ "\r\n".toList) ++
          extra.flatMap (· ++ "\r\n".toList) ++ "\r\n".toList) commonHeaders_lines
      _ = (linesOf status hash extra).flatMap (· ++ "\r\n".toList) ++ "\r\n".toList :=
        regroup _ _ _ _ _ _ _ _ _
      _ = joined (linesOf status hash extra) ++ "\r\n".toList ++ "\r\n".toList := by rw [whole]
  rw [ended, Utf8.encode_append, Utf8.encode_append, bytesOfLines, List.append_assoc]
  rfl

theorem acceptToken_chars (hash : Key.Hash) :
    ∀ c ∈ Key.acceptToken hash, InLine c ∧ Blank.isBlank c = false := by
  have character : ∀ value < 64, InLine (Base64.character value) ∧
      Blank.isBlank (Base64.character value) = false := by decide
  have filler : InLine '=' ∧ Blank.isBlank '=' = false := by decide
  unfold Key.acceptToken
  fun_induction Base64.encode hash with
  | case1 a b c rest ih =>
    have sizes := And.intro a.toNat_lt (And.intro b.toNat_lt c.toNat_lt)
    simp only [List.forall_mem_cons]
    exact ⟨character _ (by omega), character _ (by omega), character _ (by omega),
      character _ (by omega), ih⟩
  | case2 a b =>
    have sizes := And.intro a.toNat_lt b.toNat_lt
    simp only [List.forall_mem_cons]
    exact ⟨character _ (by omega), character _ (by omega), character _ (by omega), filler, by simp⟩
  | case3 a =>
    have size := a.toNat_lt
    simp only [List.forall_mem_cons]
    exact ⟨character _ (by omega), character _ (by omega), filler, filler, by simp⟩
  | case4 => simp

theorem linesOf_lines (status : String) (hash : Key.Hash) (extra : List (List Char))
    (plain : ∀ c ∈ status.toList, InLine c) (each : ∀ line ∈ extra, IsLine line) :
    ∀ line ∈ linesOf status hash extra, IsLine line := by
  have start (first : List Char) (rest : List Char) (nonempty : first ≠ [])
      (one : ∀ c ∈ first, InLine c) (other : ∀ c ∈ rest, InLine c) : IsLine (first ++ rest) :=
    ⟨by simp [nonempty], fun c member => (List.mem_append.1 member).elim (one c) (other c)⟩
  simp only [linesOf, List.forall_mem_cons]
  repeat rw [String.toList_ofList]
  refine ⟨start _ _ (by decide) (by decide) plain, ?_, ?_, ?_, start _ _ (by decide) ?_ ?_, each⟩
  · exact ⟨by decide, by decide +kernel⟩
  · exact ⟨by decide, by decide +kernel⟩
  · exact ⟨by decide, by decide +kernel⟩
  · decide +kernel
  · exact fun c member => (acceptToken_chars hash c member).1

theorem takeUp_accept (head : ResponseHead) (hash : Key.Hash) :
    head.takeUp ("Sec-WebSocket-Accept: ".toList ++ Key.acceptToken hash) =
      { head with accept := some (String.ofList (Key.acceptToken hash)) } := by
  have value : Blank.trim (' ' :: Key.acceptToken hash) = Key.acceptToken hash := by
    rw [Blank.trim_blank_cons ' ' _ (by decide)]
    exact Blank.trim_visible _ fun c member => (acceptToken_chars hash c member).2
  have parted : Cut.first? ':' ("Sec-WebSocket-Accept: ".toList ++ Key.acceptToken hash) =
      some ("Sec-WebSocket-Accept".toList, ' ' :: Key.acceptToken hash) := rfl
  have named : isWord "Sec-WebSocket-Accept".toList "sec-websocket-accept" = true := by decide
  rw [takeUp, parted]
  simp only
  rw [if_pos named, value]

theorem takeUp_common (head : ResponseHead) :
    ∀ line ∈ ["Cache-Control: no-cache", "Connection: close", "Access-Control-Allow-Origin: *",
      "Content-Type: text/plain; charset=UTF-8"], head.takeUp line.toList = head := by
  simp only [List.forall_mem_cons]
  repeat rw [String.toList_ofList]
  exact ⟨rfl, rfl, rfl, rfl, by simp⟩

theorem takeUp_chunked (head : ResponseHead) :
    head.takeUp "Transfer-Encoding: chunked".toList = { head with chunked := true } := by
  rw [String.toList_ofList]
  rfl

theorem status?_ok : status? ("HTTP/1.1 ".toList ++ "200 OK".toList) = some 200 := by
  repeat rw [String.toList_ofList]
  decide +kernel

def watchLines (hash : Key.Hash) : List (List Char) :=
  linesOf "200 OK" hash
    ["Content-Type: text/plain; charset=UTF-8".toList, "Transfer-Encoding: chunked".toList]

theorem watchHeaders_lines : WatchStream.watchHeaders.toList =
    ["Content-Type: text/plain; charset=UTF-8".toList,
      "Transfer-Encoding: chunked".toList].flatMap (· ++ "\r\n".toList) := by
  rw [WatchStream.watchHeaders]
  repeat rw [String.toList_ofList]
  rfl

theorem watchLines_lines (hash : Key.Hash) : ∀ line ∈ watchLines hash, IsLine line := by
  apply linesOf_lines _ hash _ (by decide)
  simp only [List.forall_mem_cons]
  repeat rw [String.toList_ofList]
  refine ⟨?_, ?_, by simp⟩
  · exact ⟨by decide, by decide +kernel⟩
  · exact ⟨by decide, by decide +kernel⟩

theorem opening_eq (hash : Key.Hash) :
    WatchStream.opening (some hash) =
      bytesOfLines (watchLines hash) ++
        Frame.paddingTexts.flatMap fun text => Chunk.frame (bytesOf text) := by
  rw [WatchStream.opening, watchLines, ← encode_render]
  exact congrArg (fun extra => Utf8.encode (render "200 OK" (some hash) extra) ++ _) watchHeaders_lines

theorem parse_watchLines (hash : Key.Hash) (rest : Bytes) :
    parse (bytesOfLines (watchLines hash) ++ rest) =
      .ok (some (⟨200, some (String.ofList (Key.acceptToken hash)), true⟩,
        (bytesOfLines (watchLines hash)).length)) := by
  have granted : status? ((watchLines hash).headD []) = some 200 := status?_ok
  have common (head : ResponseHead) := takeUp_common head
  simp only [List.forall_mem_cons] at common
  have nonempty : watchLines hash ≠ [] := List.cons_ne_nil _ _
  rw [parse_bytesOfLines _ nonempty (watchLines_lines hash), granted]
  simp only [watchLines, linesOf, List.tail_cons, List.foldl_cons, List.foldl_nil, common,
    takeUp_accept, takeUp_chunked]

theorem length_le_joined (parts : List (List Char)) {line : List Char} (member : line ∈ parts) :
    line.length ≤ (joined parts).length := by
  fun_induction joined parts with
  | case1 => cases member
  | case2 only => exact Nat.le_of_eq (congrArg List.length (List.mem_singleton.1 member))
  | case3 first rest several ih =>
    simp only [List.length_append, List.length_cons]
    rcases List.mem_cons.1 member with rfl | later
    · exact Nat.le_add_right _ _
    · have rest := ih later
      omega

theorem joined_length_le (parts : List (List Char)) :
    (joined parts).length ≤ (parts.map fun line => line.length + 2).sum := by
  fun_induction joined parts with
  | case1 => simp
  | case2 => simp
  | case3 line rest several ih =>
    simp only [List.length_append, List.length_cons, List.map_cons, List.sum_cons]
    omega

theorem watchLines_length_le (key : String) :
    (bytesOfLines (watchLines (Key.hash key))).length ≤ maxLength := by
  have ascii := Utf8.encode_length_le (joined (watchLines (Key.hash key)))
  have lengths := joined_length_le (watchLines (Key.hash key))
  have token : (Key.acceptToken (Key.hash key)).length = 28 := by
    rw [Key.acceptToken, Base64.encode_length, Key.hash, Key.hashBytes, Sha1.digest_length]
  have total : ((watchLines (Key.hash key)).map fun line => line.length + 2).sum = 214 := by
    simp only [watchLines, linesOf, List.map_cons, List.map_nil, List.sum_cons, List.sum_nil,
      List.length_append, String.length_toList, token]
    rfl
  rw [bytesOfLines, List.length_append]
  change _ + 4 ≤ 8192
  omega

def replyLines (status body : String) (hash : Key.Hash) : List (List Char) :=
  linesOf status hash ["Content-Type: text/plain; charset=UTF-8".toList,
    "Content-Length: ".toList ++ Numeral.decimal (bytesOf body).length]

theorem reply_data (status body : String) (hash : Key.Hash) :
    (Reply.ofBody status (some hash) body).data =
      bytesOfLines (replyLines status body hash) ++ bytesOf body := by
  have lengthLine : "Content-Type: text/plain; charset=UTF-8\r\nContent-Length: ".toList =
      "Content-Type: text/plain; charset=UTF-8".toList ++ "\r\n".toList ++
        "Content-Length: ".toList := by
    repeat rw [String.toList_ofList]
    rfl
  have extra (number : List Char) :
      "Content-Type: text/plain; charset=UTF-8\r\nContent-Length: ".toList ++ number ++
          "\r\n".toList =
        ["Content-Type: text/plain; charset=UTF-8".toList,
          "Content-Length: ".toList ++ number].flatMap (· ++ "\r\n".toList) := by
    rw [lengthLine]
    simp only [List.flatMap_cons, List.flatMap_nil, List.append_nil, List.append_assoc]
  rw [replyLines, ← encode_render, Reply.ofBody]
  exact congrArg (fun extra => Utf8.encode (render status (some hash) extra) ++ _) (extra _)

theorem replyLines_lines (status body : String) (hash : Key.Hash)
    (plain : ∀ c ∈ status.toList, InLine c) : ∀ line ∈ replyLines status body hash, IsLine line := by
  have digits : ∀ c ∈ Numeral.decimal (bytesOf body).length, InLine c := Numeral.forall_mem_decimal (by decide) _
  apply linesOf_lines status hash _ plain
  simp only [List.forall_mem_cons]
  refine ⟨⟨by decide, by decide +kernel⟩, ⟨List.cons_ne_nil _ _, ?_⟩, by simp⟩
  intro c member
  rcases List.mem_append.1 member with name | number
  · exact (by decide : ∀ c ∈ "Content-Length: ".toList, InLine c) c name
  · exact digits c number

theorem status_of_reply (status body : String) (hash : Key.Hash) (code : Nat)
    (plain : ∀ c ∈ status.toList, InLine c)
    (word : status? ("HTTP/1.1 ".toList ++ status.toList) = some code) (data : Bytes)
    (part : data <+: (Reply.ofBody status (some hash) body).data) (head : ResponseHead) (used : Nat)
    (parsed : parse data = .ok (some (head, used))) : head.status = code := by
  obtain ⟨more, whole⟩ := part
  have nonempty : replyLines status body hash ≠ [] := List.cons_ne_nil _ _
  have first : status? ((replyLines status body hash).headD []) = some code := word
  have read := parse_bytesOfLines _ nonempty (replyLines_lines status body hash plain) (bytesOf body)
  rw [← reply_data, ← whole, (parse_append parsed more).1, first] at read
  simp only [Except.ok.injEq, Option.some.injEq, Prod.mk.injEq] at read
  rw [read.1, status_foldl]

theorem failure_refused (hash : Key.Hash) (reply : Reply)
    (failure : reply = .notFound (some hash) ∨ reply = .badRequest (some hash)) (data : Bytes)
    (part : data <+: reply.data) (head : ResponseHead) (used : Nat)
    (parsed : parse data = .ok (some (head, used))) : head.status ≠ 200 := by
  rcases failure with rfl | rfl
  · have status := status_of_reply "404 Not Found" _ hash 404 (by decide) (by decide +kernel) data part
      head used parsed
    omega
  · have status := status_of_reply "400 Bad Request" _ hash 400 (by decide) (by decide +kernel) data
      part head used parsed
    omega

end ResponseHead

end TileRoom
