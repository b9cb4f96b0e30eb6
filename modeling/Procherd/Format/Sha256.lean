-- SUMMARY: The SHA-256 digest of a byte string.
import Mathlib.Data.Nat.Bitwise

/-!
# SHA-256

Words are natural numbers below `2 ^ 32`. A message is padded to blocks of 64
bytes, and each block is compressed into the chaining state.
-/

namespace Sha256

def word (n : Nat) : Nat := n % 2 ^ 32

def rotr (n x : Nat) : Nat := word (x >>> n ||| x <<< (32 - n))

def complement (x : Nat) : Nat := 2 ^ 32 - 1 - x

def roundConstants : List Nat :=
  [0x428a2f98, 0x71374491, 0xb5c0fbcf, 0xe9b5dba5, 0x3956c25b, 0x59f111f1, 0x923f82a4, 0xab1c5ed5,
    0xd807aa98, 0x12835b01, 0x243185be, 0x550c7dc3, 0x72be5d74, 0x80deb1fe, 0x9bdc06a7, 0xc19bf174,
    0xe49b69c1, 0xefbe4786, 0x0fc19dc6, 0x240ca1cc, 0x2de92c6f, 0x4a7484aa, 0x5cb0a9dc, 0x76f988da,
    0x983e5152, 0xa831c66d, 0xb00327c8, 0xbf597fc7, 0xc6e00bf3, 0xd5a79147, 0x06ca6351, 0x14292967,
    0x27b70a85, 0x2e1b2138, 0x4d2c6dfc, 0x53380d13, 0x650a7354, 0x766a0abb, 0x81c2c92e, 0x92722c85,
    0xa2bfe8a1, 0xa81a664b, 0xc24b8b70, 0xc76c51a3, 0xd192e819, 0xd6990624, 0xf40e3585, 0x106aa070,
    0x19a4c116, 0x1e376c08, 0x2748774c, 0x34b0bcb5, 0x391c0cb3, 0x4ed8aa4a, 0x5b9cca4f, 0x682e6ff3,
    0x748f82ee, 0x78a5636f, 0x84c87814, 0x8cc70208, 0x90befffa, 0xa4506ceb, 0xbef9a3f7, 0xc67178f2]

structure Chain where
  a : Nat
  b : Nat
  c : Nat
  d : Nat
  e : Nat
  f : Nat
  g : Nat
  h : Nat

def Chain.initial : Chain :=
  { a := 0x6a09e667, b := 0xbb67ae85, c := 0x3c6ef372, d := 0xa54ff53a
    e := 0x510e527f, f := 0x9b05688c, g := 0x1f83d9ab, h := 0x5be0cd19 }

/-! ## Blocks -/

def bigEndian (bytes : List UInt8) : Nat := bytes.foldl (fun n b => 256 * n + b.toNat) 0

/-- The `n` low bytes of a number, the highest first. -/
def toBytes : Nat → Nat → List UInt8
  | 0, _ => []
  | n + 1, value => UInt8.ofNat (value / 256 ^ n) :: toBytes n value

def pad (bytes : List UInt8) : List UInt8 :=
  bytes ++ 0x80 :: List.replicate ((119 - bytes.length % 64) % 64) 0 ++ toBytes 8 (8 * bytes.length)

/-- Cut into pieces of `size` elements, at most `fuel` of them. -/
def pieces (size : Nat) : Nat → List UInt8 → List (List UInt8)
  | 0, _ => []
  | _, [] => []
  | fuel + 1, bytes => bytes.take size :: pieces size fuel (bytes.drop size)

/-! ## Compression -/

/-- Extend the schedule, given in reverse, by `n` words. -/
def extend : Nat → List Nat → List Nat
  | 0, words => words
  | n + 1, words =>
    let back i := words.getD (i - 1) 0
    let s0 := rotr 7 (back 15) ^^^ rotr 18 (back 15) ^^^ back 15 >>> 3
    let s1 := rotr 17 (back 2) ^^^ rotr 19 (back 2) ^^^ back 2 >>> 10
    extend n (word (back 16 + s0 + back 7 + s1) :: words)

def schedule (block : List UInt8) : List Nat :=
  (extend 48 ((pieces 4 16 block).map bigEndian).reverse).reverse

def round (s : Chain) (input : Nat × Nat) : Chain :=
  let s1 := rotr 6 s.e ^^^ rotr 11 s.e ^^^ rotr 25 s.e
  let choice := s.e &&& s.f ^^^ complement s.e &&& s.g
  let t1 := s.h + s1 + choice + input.1 + input.2
  let s0 := rotr 2 s.a ^^^ rotr 13 s.a ^^^ rotr 22 s.a
  let majority := s.a &&& s.b ^^^ s.a &&& s.c ^^^ s.b &&& s.c
  { a := word (t1 + s0 + majority), b := s.a, c := s.b, d := s.c
    e := word (s.d + t1), f := s.e, g := s.f, h := s.g }

def compress (s : Chain) (block : List UInt8) : Chain :=
  let r := (roundConstants.zip (schedule block)).foldl round s
  { a := word (s.a + r.a), b := word (s.b + r.b), c := word (s.c + r.c), d := word (s.d + r.d)
    e := word (s.e + r.e), f := word (s.f + r.f), g := word (s.g + r.g), h := word (s.h + r.h) }

def digest (bytes : List UInt8) : List UInt8 :=
  let blocks := pieces 64 (bytes.length / 64 + 2) (pad bytes)
  let s := blocks.foldl compress .initial
  [s.a, s.b, s.c, s.d, s.e, s.f, s.g, s.h].flatMap (toBytes 4)

/-- The digest of `abc`. -/
example : digest [97, 98, 99] = toBytes 32
    0xba7816bf8f01cfea414140de5dae2223b00361a396177a9cb410ff61f20015ad := by decide +kernel

end Sha256
