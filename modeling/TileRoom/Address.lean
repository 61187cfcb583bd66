import TileRoom.Rules
import TileRoom.Text.Blank
import TileRoom.Text.Cut
import TileRoom.Text.Numeral

/-! Network addresses. The text of an address is dotted or in groups; a port may
follow after a colon, and then an address in groups stands in brackets. -/

namespace TileRoom

inductive Ip where
  | v4 (a b c d : UInt8)
  | v6 (groups : Vector UInt16 8)
deriving DecidableEq

namespace Ip

def octet? (text : List Char) : Option UInt8 :=
  if text.length ≤ 3 ∧ (text.head? = some '0' → text.length = 1) then
    ((Numeral.value? 10 text).filter (· < 256)).map UInt8.ofNat
  else none

def parseV4? (text : List Char) : Option Ip :=
  match Cut.all '.' text with
  | [a, b, c, d] => return .v4 (← octet? a) (← octet? b) (← octet? c) (← octet? d)
  | _ => none

def group? (text : List Char) : Option UInt16 :=
  if text.length ≤ 4 then (Numeral.value? 16 text).map UInt16.ofNat else none

def pairOctets (high low : UInt8) : UInt16 :=
  UInt16.ofNat (high.toNat * 256 + low.toNat)

/-- The groups of parts that stood between colons. Where `dotted` allows it the
last part may be a dotted address, which makes two groups. -/
def groups? (dotted : Bool) : List (List Char) → Option (List UInt16)
  | [] => some []
  | [part] =>
      match dotted, parseV4? part with
      | true, some (.v4 a b c d) => some [pairOctets a b, pairOctets c d]
      | _, _ => (group? part).map ([·])
  | part :: rest => return (← group? part) :: (← groups? dotted rest)

def side? (dotted : Bool) (text : List Char) : Option (List UInt16) :=
  if text.isEmpty then some [] else groups? dotted (Cut.all ':' text)

/-- Eight groups, or fewer with one gap that stands for at least one zero group. -/
def parseV6? (text : List Char) : Option Ip :=
  match Cut.around? [':', ':'] text with
  | none => do
      let groups ← side? true text
      if size : groups.length = 8 then some (.v6 ⟨groups.toArray, size⟩) else none
  | some (before, after) => do
      let head ← side? false before
      let tail ← side? true after
      let groups := head ++ List.replicate (8 - head.length - tail.length) 0 ++ tail
      if size : groups.length = 8 ∧ head.length + tail.length < 8 then
        some (.v6 ⟨groups.toArray, size.1⟩)
      else none

def parse? (text : List Char) : Option Ip :=
  match parseV4? text with
  | some ip => some ip
  | none => parseV6? text

def dotted (a b c d : UInt8) : List Char :=
  List.intercalate ['.'] ([a, b, c, d].map fun octet => Numeral.decimal octet.toNat)

def joined (groups : List UInt16) : List Char :=
  List.intercalate [':'] (groups.map fun group => Numeral.lowerHex group.toNat)

def zerosAhead : List UInt16 → Nat
  | [] => 0
  | group :: rest => if group = 0 then zerosAhead rest + 1 else 0

/-- Where the longest run of zero groups starts, and its length; of runs equally
long the first counts. -/
def longestZeros : List UInt16 → Nat × Nat
  | [] => (0, 0)
  | group :: rest =>
      let (start, length) := longestZeros rest
      let here := zerosAhead (group :: rest)
      if length ≤ here ∧ 0 < here then (0, here) else (start + 1, length)

/-- The longest run of two or more zero groups is written as a gap, and an address
that maps a dotted one shows it. -/
def text : Ip → List Char
  | .v4 a b c d => dotted a b c d
  | .v6 groups =>
      match groups.toList with
      | [0, 0, 0, 0, 0, 0xFFFF, high, low] =>
          "::ffff:".toList ++
            dotted (UInt8.ofNat (high.toNat / 256)) (UInt8.ofNat (high.toNat % 256))
              (UInt8.ofNat (low.toNat / 256)) (UInt8.ofNat (low.toNat % 256))
      | groups =>
          let (start, length) := longestZeros groups
          if 2 ≤ length then
            joined (groups.take start) ++ "::".toList ++ joined (groups.drop (start + length))
          else joined groups

end Ip

structure Address where
  ip : Ip
  port : UInt16
deriving DecidableEq

inductive AddressError where
  | invalidAddress (text : String)
  | invalidPort (text : String)
deriving DecidableEq

def AddressError.message : AddressError → String
  | .invalidAddress text => "invalid address: " ++ text
  | .invalidPort text => "invalid port in address: " ++ text

namespace Address

/-- A port in decimal digits, without a sign. -/
def port? (text : List Char) : Option UInt16 :=
  ((Numeral.value? 10 text).filter (· < UInt16.size)).map UInt16.ofNat

def parseTrimmed (defaultPort : UInt16) (text : List Char) : Except AddressError Address :=
  let badAddress := .error (.invalidAddress (String.ofList text))
  let withPort (ip : Ip) (port : Option UInt16) : Except AddressError Address :=
    match port with
    | some port => .ok ⟨ip, port⟩
    | none => .error (.invalidPort (String.ofList text))
  match text with
  | '[' :: rest =>
      match Cut.first? ']' rest with
      | none => badAddress
      | some (host, after) =>
          match Ip.parse? host, after with
          | none, _ => badAddress
          | some ip, [] => .ok ⟨ip, defaultPort⟩
          | some ip, ':' :: port => withPort ip (port? port)
          | some ip, _ => withPort ip none
  | _ =>
      match Ip.parse? text with
      | some ip => .ok ⟨ip, defaultPort⟩
      | none =>
          match Cut.last? ':' text with
          | none => badAddress
          | some (host, port) =>
              match Ip.parse? host with
              | none => badAddress
              | some ip => withPort ip (port? port)

def parse (defaultPort : UInt16) (text : String) : Except AddressError Address :=
  parseTrimmed defaultPort (Blank.trim text.toList)

def text (address : Address) : List Char :=
  match address.ip with
  | .v4 .. => address.ip.text ++ ':' :: Numeral.decimal address.port.toNat
  | .v6 _ => '[' :: address.ip.text ++ "]:".toList ++ Numeral.decimal address.port.toNat

end Address

end TileRoom
