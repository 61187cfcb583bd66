import TileRoom.Json.Value
import TileRoom.Text.Numeral

/-! The tokens of a JSON text. A lone half of a surrogate pair, a raw control
character in a string and a number beyond the range of a double are refused,
wherever they stand. -/

namespace TileRoom.Json

inductive Token where
  | beginArray
  | endArray
  | beginObject
  | endObject
  | colon
  | comma
  | null
  | bool (value : Bool)
  | number (value : Number)
  | string (text : String)
deriving DecidableEq

def isBlank (c : Char) : Bool :=
  c = ' ' || c = '\t' || c = '\n' || c = '\r'

def escaped? : Char → Option Char
  | '"' => some '"'
  | '\\' => some '\\'
  | '/' => some '/'
  | 'b' => some '\x08'
  | 'f' => some '\x0C'
  | 'n' => some '\n'
  | 'r' => some '\r'
  | 't' => some '\t'
  | _ => none

/-- What four hexadecimal digits after `\u` mean on their own. -/
inductive Unit16 where
  | char (c : Char)
  | high (bits : Nat)
  | low (bits : Nat)

def unit16? (digits : List Char) : Option Unit16 :=
  (Numeral.value? 16 digits).map fun unit =>
    if 0xD800 ≤ unit ∧ unit < 0xDC00 then .high (unit - 0xD800)
    else if 0xDC00 ≤ unit ∧ unit < 0xE000 then .low (unit - 0xDC00)
    else .char (Char.ofNat unit)

/-- The rest of a string after its opening quote: its text and what follows the
closing quote. -/
def string? : List Char → Option (List Char × List Char)
  | [] => none
  | c :: rest =>
      if c = '"' then some ([], rest)
      else if c.toNat < 0x20 then none
      else if c ≠ '\\' then (string? rest).map fun (text, after) => (c :: text, after)
      else
        match rest with
        | 'u' :: a :: b :: d :: e :: rest =>
            match unit16? [a, b, d, e] with
            | some (.char c) => (string? rest).map fun (text, after) => (c :: text, after)
            | some (.high high) =>
                match rest with
                | '\\' :: 'u' :: a :: b :: d :: e :: rest =>
                    match unit16? [a, b, d, e] with
                    | some (.low low) =>
                        (string? rest).map fun (text, after) =>
                          (Char.ofNat (0x10000 + high * 0x400 + low) :: text, after)
                    | _ => none
                | _ => none
            | _ => none
        | c :: rest =>
            match escaped? c with
            | some c => (string? rest).map fun (text, after) => (c :: text, after)
            | none => none
        | [] => none

structure Literal where
  negative : Bool
  whole : List Nat
  fraction : Option (List Nat)
  exponent : Option Int

def spanDigits : List Char → List Nat × List Char
  | [] => ([], [])
  | c :: rest =>
      match Numeral.digitValue? 10 c with
      | some digit => (digit :: (spanDigits rest).1, (spanDigits rest).2)
      | none => ([], c :: rest)

def whole? (text : List Char) : Option (List Nat × List Char) :=
  match spanDigits text with
  | ([], _) => none
  | (0 :: _ :: _, _) => none
  | found => some found

def fraction? : List Char → Option (Option (List Nat) × List Char)
  | '.' :: rest =>
      match spanDigits rest with
      | ([], _) => none
      | (digits, after) => some (some digits, after)
  | text => some (none, text)

def magnitude? (text : List Char) : Option (Nat × List Char) :=
  match spanDigits text with
  | ([], _) => none
  | (digits, after) => some (digits.foldl (fun value digit => value * 10 + digit) 0, after)

def exponent? : List Char → Option (Option Int × List Char)
  | c :: rest =>
      if c = 'e' ∨ c = 'E' then
        match rest with
        | '-' :: rest => (magnitude? rest).map fun (value, after) => (some (-value), after)
        | '+' :: rest => (magnitude? rest).map fun (value, after) => (some value, after)
        | rest => (magnitude? rest).map fun (value, after) => (some value, after)
      else some (none, c :: rest)
  | [] => some (none, [])

def literal? (text : List Char) : Option (Literal × List Char) := do
  let (negative, text) := match text with
    | '-' :: rest => (true, rest)
    | text => (false, text)
  let (whole, text) ← whole? text
  let (fraction, text) ← fraction? text
  let (exponent, text) ← exponent? text
  return (⟨negative, whole, fraction, exponent⟩, text)

/-- The leading digits of a number as a 64-bit word, and the digits that no
longer fit into it. -/
def packWord : Nat → List Nat → Nat × List Nat
  | word, [] => (word, [])
  | word, digit :: rest =>
      if word * 10 + digit < UInt64.size then packWord (word * 10 + digit) rest
      else (word, digit :: rest)

/-- The nearest number with at most 53 significant bits, ties to the even one. -/
def toDouble (number : Nat) : Nat :=
  let unit := 1 <<< (Nat.log2 number - 52)
  let below := number / unit
  let rest := number % unit
  if 2 * rest < unit ∨ (2 * rest = unit ∧ below % 2 = 0) then below * unit
  else (below + 1) * unit

/-- From this number on, the nearest double is beyond all finite ones. -/
def doubleLimit : Nat := (1 <<< 54 - 1) <<< 970

def inRange (word : Nat) (exponent : Int) : Bool :=
  word = 0 || exponent < 0 ||
    exponent ≤ 308 &&
      toDouble word * toDouble (Nat.pow 10 exponent.toNat) < doubleLimit

/-- A number without point and exponent is an integer when it fits 64 bits,
except for a negative zero. All others are kept to a word of leading digits and a
power of ten, and are refused beyond the range of a double. -/
def Literal.number? (literal : Literal) : Option Number :=
  let (word, dropped) := packWord 0 literal.whole
  let fitting := if dropped.isEmpty then
      if literal.negative then 0 < word && word ≤ 0x8000000000000000 else true
    else false
  if fitting && literal.fraction.isNone && literal.exponent.isNone then
    some (.integer (if literal.negative then -word else word))
  else
    let digits := literal.fraction.getD []
    let (word, lost) := packWord word digits
    let exponent : Int := dropped.length - (digits.length - lost.length : Nat)
    if inRange word (exponent + literal.exponent.getD 0) then some .real else none

def token? (first : Char) (rest : List Char) : Option (Token × List Char) :=
  match first, rest with
  | '[', rest => some (.beginArray, rest)
  | ']', rest => some (.endArray, rest)
  | '\x7b', rest => some (.beginObject, rest)
  | '\x7d', rest => some (.endObject, rest)
  | ':', rest => some (.colon, rest)
  | ',', rest => some (.comma, rest)
  | '"', rest => (string? rest).map fun (text, after) => (.string (String.ofList text), after)
  | 'n', 'u' :: 'l' :: 'l' :: rest => some (.null, rest)
  | 't', 'r' :: 'u' :: 'e' :: rest => some (.bool true, rest)
  | 'f', 'a' :: 'l' :: 's' :: 'e' :: rest => some (.bool false, rest)
  | first, rest => do
      let (literal, after) ← literal? (first :: rest)
      let number ← literal.number?
      return (.number number, after)

def tokensWithin : Nat → List Char → Option (List Token)
  | _, [] => some []
  | 0, _ :: _ => none
  | steps + 1, c :: rest =>
      if isBlank c then tokensWithin steps rest
      else
        match token? c rest with
        | some (token, after) => (tokensWithin steps after).map (token :: ·)
        | none => none

def tokens? (text : List Char) : Option (List Token) :=
  tokensWithin text.length text

end TileRoom.Json
