import Himsha.Lib.Borsh

/-!
# SHA-256

The hash function, over natural numbers below `2 ^ 32`, so that the kernel computes it with its
own arithmetic. Nothing is proved about it here beyond the length of a digest; it is what the
well-known identifiers and transaction ids of the development are computed with.
-/

set_option autoImplicit false

namespace Himsha
namespace Lib
namespace Sha256

def word (n : Nat) : Nat := n % 2 ^ 32

/-- Rotate a word right. -/
def rotr (k x : Nat) : Nat := (x >>> k) ||| word (x <<< (32 - k))

/-- The first 32 bits of the fractional parts of the cube roots of the first 64 primes. -/
def roundConstants : List Nat :=
  [0x428a2f98, 0x71374491, 0xb5c0fbcf, 0xe9b5dba5, 0x3956c25b, 0x59f111f1,
   0x923f82a4, 0xab1c5ed5, 0xd807aa98, 0x12835b01, 0x243185be, 0x550c7dc3,
   0x72be5d74, 0x80deb1fe, 0x9bdc06a7, 0xc19bf174, 0xe49b69c1, 0xefbe4786,
   0x0fc19dc6, 0x240ca1cc, 0x2de92c6f, 0x4a7484aa, 0x5cb0a9dc, 0x76f988da,
   0x983e5152, 0xa831c66d, 0xb00327c8, 0xbf597fc7, 0xc6e00bf3, 0xd5a79147,
   0x06ca6351, 0x14292967, 0x27b70a85, 0x2e1b2138, 0x4d2c6dfc, 0x53380d13,
   0x650a7354, 0x766a0abb, 0x81c2c92e, 0x92722c85, 0xa2bfe8a1, 0xa81a664b,
   0xc24b8b70, 0xc76c51a3, 0xd192e819, 0xd6990624, 0xf40e3585, 0x106aa070,
   0x19a4c116, 0x1e376c08, 0x2748774c, 0x34b0bcb5, 0x391c0cb3, 0x4ed8aa4a,
   0x5b9cca4f, 0x682e6ff3, 0x748f82ee, 0x78a5636f, 0x84c87814, 0x8cc70208,
   0x90befffa, 0xa4506ceb, 0xbef9a3f7, 0xc67178f2]

/-- The first 32 bits of the fractional parts of the square roots of the first 8 primes. -/
structure Digest where
  a : Nat := 0x6a09e667
  b : Nat := 0xbb67ae85
  c : Nat := 0x3c6ef372
  d : Nat := 0xa54ff53a
  e : Nat := 0x510e527f
  f : Nat := 0x9b05688c
  g : Nat := 0x1f83d9ab
  h : Nat := 0x5be0cd19
deriving DecidableEq

def bigSigma0 (x : Nat) : Nat := rotr 2 x ^^^ rotr 13 x ^^^ rotr 22 x

def bigSigma1 (x : Nat) : Nat := rotr 6 x ^^^ rotr 11 x ^^^ rotr 25 x

def smallSigma0 (x : Nat) : Nat := rotr 7 x ^^^ rotr 18 x ^^^ (x >>> 3)

def smallSigma1 (x : Nat) : Nat := rotr 17 x ^^^ rotr 19 x ^^^ (x >>> 10)

def choose (x y z : Nat) : Nat := (x &&& y) ^^^ ((2 ^ 32 - 1 - x) &&& z)

def majority (x y z : Nat) : Nat := (x &&& y) ^^^ (x &&& z) ^^^ (y &&& z)

/-- One round, for a round constant and a schedule word. -/
def round (s : Digest) (k w : Nat) : Digest :=
  let t₁ := s.h + bigSigma1 s.e + choose s.e s.f s.g + k + w
  let t₂ := bigSigma0 s.a + majority s.a s.b s.c
  { a := word (t₁ + t₂), b := s.a, c := s.b, d := s.c
    e := word (s.d + t₁), f := s.e, g := s.f, h := s.g }

/-- Run the rounds that are left. `ws` holds the next sixteen schedule words: a round uses the
    first, and the word sixteen places on is computed from the window. -/
def rounds (s : Digest) : List Nat → List Nat → Digest
  | k :: ks, w :: ws =>
      let next := word (smallSigma1 (ws.getD 13 0) + ws.getD 8 0 + smallSigma0 (ws.getD 0 0) + w)
      rounds (round s k w) ks (ws ++ [next])
  | _, _ => s

/-- Absorb one block of sixteen words. -/
def compress (s : Digest) (block : List Nat) : Digest :=
  let t := rounds s roundConstants block
  { a := word (s.a + t.a), b := word (s.b + t.b), c := word (s.c + t.c), d := word (s.d + t.d)
    e := word (s.e + t.e), f := word (s.f + t.f), g := word (s.g + t.g), h := word (s.h + t.h) }

/-- The message, a one bit, zeros up to eight bytes short of a block, and the length in bits. -/
def pad (bs : List UInt8) : List UInt8 :=
  bs ++ 0x80 :: List.replicate ((119 - bs.length % 64) % 64) 0 ++
    (leBytes 8 (8 * bs.length)).reverse

/-- Big-endian words. -/
def toWords : List UInt8 → List Nat
  | b₀ :: b₁ :: b₂ :: b₃ :: bs =>
      (((b₀.toNat * 256 + b₁.toNat) * 256 + b₂.toNat) * 256 + b₃.toNat) :: toWords bs
  | _ => []

/-- Absorb the blocks of a padded message; `n` is the number of blocks. -/
def absorb (s : Digest) : Nat → List Nat → Digest
  | 0, _ => s
  | n + 1, ws => absorb (compress s (ws.take 16)) n (ws.drop 16)

def Digest.toBytes (s : Digest) : List UInt8 :=
  [s.a, s.b, s.c, s.d, s.e, s.f, s.g, s.h].flatMap fun w => (leBytes 4 w).reverse

end Sha256

open Sha256 in
/-- `Sha256::digest`. -/
def sha256 (bs : List UInt8) : Blob 32 where
  bytes :=
    let ws := toWords (pad bs)
    (absorb {} (ws.length / 16) ws).toBytes
  length_eq := by simp [Digest.toBytes]

end Lib
end Himsha
