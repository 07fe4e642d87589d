import Mathlib.Algebra.GroupWithZero.Nat
import Mathlib.Data.List.Basic

/-!
# SHA-256

The digest of a list of bytes, on naturals below `2 ^ 32` so that it can be evaluated.
-/

namespace AwsOps.Sha256

/-- A word: the value modulo `2 ^ 32`. -/
def word (n : Nat) : Nat :=
  n % 2 ^ 32

/-- Rotate a word to the right. -/
def rotr (x n : Nat) : Nat :=
  word ((x >>> n) ||| (x <<< (32 - n)))

/-- The constants of the rounds. -/
def constants : List Nat := [
  0x428a2f98, 0x71374491, 0xb5c0fbcf, 0xe9b5dba5, 0x3956c25b, 0x59f111f1, 0x923f82a4, 0xab1c5ed5,
  0xd807aa98, 0x12835b01, 0x243185be, 0x550c7dc3, 0x72be5d74, 0x80deb1fe, 0x9bdc06a7, 0xc19bf174,
  0xe49b69c1, 0xefbe4786, 0x0fc19dc6, 0x240ca1cc, 0x2de92c6f, 0x4a7484aa, 0x5cb0a9dc, 0x76f988da,
  0x983e5152, 0xa831c66d, 0xb00327c8, 0xbf597fc7, 0xc6e00bf3, 0xd5a79147, 0x06ca6351, 0x14292967,
  0x27b70a85, 0x2e1b2138, 0x4d2c6dfc, 0x53380d13, 0x650a7354, 0x766a0abb, 0x81c2c92e, 0x92722c85,
  0xa2bfe8a1, 0xa81a664b, 0xc24b8b70, 0xc76c51a3, 0xd192e819, 0xd6990624, 0xf40e3585, 0x106aa070,
  0x19a4c116, 0x1e376c08, 0x2748774c, 0x34b0bcb5, 0x391c0cb3, 0x4ed8aa4a, 0x5b9cca4f, 0x682e6ff3,
  0x748f82ee, 0x78a5636f, 0x84c87814, 0x8cc70208, 0x90befffa, 0xa4506ceb, 0xbef9a3f7, 0xc67178f2]

/-- The chaining state: eight words. -/
structure State where
  a : Nat
  b : Nat
  c : Nat
  d : Nat
  e : Nat
  f : Nat
  g : Nat
  h : Nat

/-- The state before the first block. -/
def initial : State :=
  ⟨0x6a09e667, 0xbb67ae85, 0x3c6ef372, 0xa54ff53a, 0x510e527f, 0x9b05688c, 0x1f83d9ab, 0x5be0cd19⟩

/-- Extend a message schedule, whose latest word is first, by one word. -/
def extend (schedule : List Nat) : List Nat :=
  let w2 := schedule.getD 1 0
  let w15 := schedule.getD 14 0
  let s0 := rotr w15 7 ^^^ rotr w15 18 ^^^ (w15 >>> 3)
  let s1 := rotr w2 17 ^^^ rotr w2 19 ^^^ (w2 >>> 10)
  word (schedule.getD 15 0 + s0 + schedule.getD 6 0 + s1) :: schedule

/-- The message schedule of a block of sixteen words. -/
def schedule (block : List Nat) : List Nat :=
  ((List.range 48).foldl (fun w _ => extend w) block.reverse).reverse

/-- One round, with its constant and its word of the schedule. -/
def round (s : State) (input : Nat × Nat) : State :=
  let s1 := rotr s.e 6 ^^^ rotr s.e 11 ^^^ rotr s.e 25
  let choice := (s.e &&& s.f) ^^^ ((0xffffffff - s.e) &&& s.g)
  let t1 := s.h + s1 + choice + input.1 + input.2
  let s0 := rotr s.a 2 ^^^ rotr s.a 13 ^^^ rotr s.a 22
  let majority := (s.a &&& s.b) ^^^ (s.a &&& s.c) ^^^ (s.b &&& s.c)
  ⟨word (t1 + s0 + majority), s.a, s.b, s.c, word (s.d + t1), s.e, s.f, s.g⟩

def compress (s : State) (block : List Nat) : State :=
  let t := (constants.zip (schedule block)).foldl round s
  ⟨word (s.a + t.a), word (s.b + t.b), word (s.c + t.c), word (s.d + t.d), word (s.e + t.e),
    word (s.f + t.f), word (s.g + t.g), word (s.h + t.h)⟩

/-- The big-endian bytes of a number. -/
def bytesOf (width n : Nat) : List Nat :=
  (List.range width).reverse.map fun i => n / 256 ^ i % 256

/-- The number with the given big-endian bytes. -/
def ofBytes (bytes : List Nat) : Nat :=
  bytes.foldl (fun n b => n * 256 + b) 0

/-- The first `count` pieces of a size. -/
def chunks (size : Nat) : Nat → List Nat → List (List Nat)
  | 0, _ => []
  | count + 1, items => items.take size :: chunks size count (items.drop size)

/-- The message with its padding and its length in bits. -/
def padded (message : List Nat) : List Nat :=
  message ++ 0x80 :: List.replicate ((119 - message.length % 64) % 64) 0 ++
    bytesOf 8 (8 * message.length)

def digest (message : List Nat) : List Nat :=
  let bytes := padded message
  let blocks := (chunks 64 (bytes.length / 64) bytes).map fun b => (chunks 4 16 b).map ofBytes
  let s := blocks.foldl compress initial
  [s.a, s.b, s.c, s.d, s.e, s.f, s.g, s.h].flatMap (bytesOf 4)

/-- The hexadecimal digits of bytes. -/
def hex (bytes : List Nat) : List Char :=
  bytes.flatMap fun b => [Nat.digitChar (b / 16), Nat.digitChar (b % 16)]

/-- The hexadecimal digest of a text in UTF-8. -/
def hexDigest (text : List Char) : List Char :=
  hex (digest ((text.flatMap String.utf8EncodeChar).map UInt8.toNat))

example : hexDigest "abc".toList =
    "ba7816bf8f01cfea414140de5dae2223b00361a396177a9cb410ff61f20015ad".toList := by
  decide +kernel

theorem hex_digest_length (text : List Char) : (hexDigest text).length = 64 := by
  have hhex : ∀ bytes, (hex bytes).length = 2 * bytes.length := by
    intro bytes
    induction bytes with
    | nil => rfl
    | cons b rest ih =>
      show (hex rest).length + 2 = 2 * (rest.length + 1)
      omega
  rw [hexDigest, hhex]
  simp [digest, bytesOf]

end AwsOps.Sha256
