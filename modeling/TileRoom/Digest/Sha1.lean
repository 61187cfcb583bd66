import TileRoom.Text.Utf8

/-! The digest SHA-1 of a byte text. The padded message is read as blocks of
sixteen words, and each block drives eighty rounds on a chain of five words. -/

namespace TileRoom.Sha1

structure Chain where
  a : UInt32
  b : UInt32
  c : UInt32
  d : UInt32
  e : UInt32
deriving DecidableEq

def start : Chain :=
  ⟨0x67452301, 0xEFCDAB89, 0x98BADCFE, 0x10325476, 0xC3D2E1F0⟩

def rotateLeft (word : UInt32) (count : UInt32) : UInt32 :=
  (word <<< count) ||| (word >>> (32 - count))

def bigEndian : Nat → Nat → Bytes
  | 0, _ => []
  | width + 1, number => bigEndian width (number / 256) ++ [UInt8.ofNat (number % 256)]

@[simp] theorem bigEndian_length (width number : Nat) :
    (bigEndian width number).length = width := by
  induction width generalizing number with
  | zero => rfl
  | succ width ih => simp [bigEndian, ih]

/-- A message with a mark bit, zeros, and its length in bits, so that it fills
whole blocks. -/
def pad (message : Bytes) : Bytes :=
  message ++ 0x80 :: List.replicate ((119 - message.length % 64) % 64) 0 ++
    bigEndian 8 (8 * message.length)

def words : Bytes → List UInt32
  | a :: b :: c :: d :: rest =>
      UInt32.ofNat (((a.toNat * 256 + b.toNat) * 256 + c.toNat) * 256 + d.toNat) :: words rest
  | _ => []

def mix (round : Nat) (b c d : UInt32) : UInt32 × UInt32 :=
  if round < 20 then ((b &&& c) ||| (~~~b &&& d), 0x5A827999)
  else if round < 40 then (b ^^^ c ^^^ d, 0x6ED9EBA1)
  else if round < 60 then ((b &&& c) ||| (b &&& d) ||| (c &&& d), 0x8F1BBCDC)
  else (b ^^^ c ^^^ d, 0xCA62C1D6)

/-- One round takes the first word of a window of sixteen and appends the word
that the schedule makes of the window. -/
def round (state : Chain × List UInt32) (index : Nat) : Chain × List UInt32 :=
  let (chain, window) := state
  let (mixed, constant) := mix index chain.b chain.c chain.d
  let sum := rotateLeft chain.a 5 + mixed + chain.e + constant + window.getD 0 0
  let word := rotateLeft (window.getD 13 0 ^^^ window.getD 8 0 ^^^ window.getD 2 0 ^^^
    window.getD 0 0) 1
  (⟨sum, chain.a, rotateLeft chain.b 30, chain.c, chain.d⟩, window.tail ++ [word])

def block (chain : Chain) (window : List UInt32) : Chain :=
  let last := ((List.range 80).foldl round (chain, window)).1
  ⟨chain.a + last.a, chain.b + last.b, chain.c + last.c, chain.d + last.d, chain.e + last.e⟩

def blocks : Nat → Chain → List UInt32 → Chain
  | 0, chain, _ => chain
  | count + 1, chain, message =>
      blocks count (block chain (message.take 16)) (message.drop 16)

def Chain.bytes (chain : Chain) : Bytes :=
  [chain.a, chain.b, chain.c, chain.d, chain.e].flatMap fun word => bigEndian 4 word.toNat

def digest (message : Bytes) : Bytes :=
  let padded := words (pad message)
  (blocks (padded.length / 16) start padded).bytes

theorem digest_length (message : Bytes) : (digest message).length = 20 := by
  simp [digest, Chain.bytes]

end TileRoom.Sha1
