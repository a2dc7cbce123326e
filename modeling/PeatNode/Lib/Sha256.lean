/-
# SHA-256

The hash of FIPS 180-4 on byte strings: padding to 64-byte blocks, the message
schedule (kept as a window of the last sixteen words), sixty-four rounds a
block, and the eight big-endian words of the final state.  Words are natural
numbers below `2 ^ 32`; additions are reduced modulo `2 ^ 32`.
-/

import PeatNode.Lib.BigEndian
import PeatNode.Lib.Chunks

namespace Sha256

/-- Rotation of a 32-bit word to the right. -/
def rotr (n x : ℕ) : ℕ := x >>> n ||| x <<< (32 - n) % 2 ^ 32

def ch (x y z : ℕ) : ℕ := (x &&& y) ^^^ ((2 ^ 32 - 1 - x) &&& z)

def maj (x y z : ℕ) : ℕ := (x &&& y) ^^^ (x &&& z) ^^^ (y &&& z)

def bigSigma0 (x : ℕ) : ℕ := rotr 2 x ^^^ rotr 13 x ^^^ rotr 22 x

def bigSigma1 (x : ℕ) : ℕ := rotr 6 x ^^^ rotr 11 x ^^^ rotr 25 x

def smallSigma0 (x : ℕ) : ℕ := rotr 7 x ^^^ rotr 18 x ^^^ x >>> 3

def smallSigma1 (x : ℕ) : ℕ := rotr 17 x ^^^ rotr 19 x ^^^ x >>> 10

/-- FIPS 180-4, 4.2.2. -/
def roundConstants : List ℕ :=
  [0x428a2f98, 0x71374491, 0xb5c0fbcf, 0xe9b5dba5, 0x3956c25b, 0x59f111f1, 0x923f82a4, 0xab1c5ed5,
   0xd807aa98, 0x12835b01, 0x243185be, 0x550c7dc3, 0x72be5d74, 0x80deb1fe, 0x9bdc06a7, 0xc19bf174,
   0xe49b69c1, 0xefbe4786, 0x0fc19dc6, 0x240ca1cc, 0x2de92c6f, 0x4a7484aa, 0x5cb0a9dc, 0x76f988da,
   0x983e5152, 0xa831c66d, 0xb00327c8, 0xbf597fc7, 0xc6e00bf3, 0xd5a79147, 0x06ca6351, 0x14292967,
   0x27b70a85, 0x2e1b2138, 0x4d2c6dfc, 0x53380d13, 0x650a7354, 0x766a0abb, 0x81c2c92e, 0x92722c85,
   0xa2bfe8a1, 0xa81a664b, 0xc24b8b70, 0xc76c51a3, 0xd192e819, 0xd6990624, 0xf40e3585, 0x106aa070,
   0x19a4c116, 0x1e376c08, 0x2748774c, 0x34b0bcb5, 0x391c0cb3, 0x4ed8aa4a, 0x5b9cca4f, 0x682e6ff3,
   0x748f82ee, 0x78a5636f, 0x84c87814, 0x8cc70208, 0x90befffa, 0xa4506ceb, 0xbef9a3f7, 0xc67178f2]

/-- The eight working variables, also the chaining value between blocks. -/
structure State where
  (a b c d e f g h : ℕ)

/-- The initial hash value (FIPS 180-4, 5.3.3). -/
def initial : State :=
  ⟨0x6a09e667, 0xbb67ae85, 0x3c6ef372, 0xa54ff53a, 0x510e527f, 0x9b05688c, 0x1f83d9ab, 0x5be0cd19⟩

def round (s : State) (k w : ℕ) : State :=
  let t₁ := s.h + bigSigma1 s.e + ch s.e s.f s.g + k + w
  let t₂ := bigSigma0 s.a + maj s.a s.b s.c
  ⟨(t₁ + t₂) % 2 ^ 32, s.a, s.b, s.c, (s.d + t₁) % 2 ^ 32, s.e, s.f, s.g⟩

/-- `window` is `W_t, …, W_{t+15}`. -/
def rounds : List ℕ → List ℕ → State → State
  | k :: ks, w :: window, s =>
    let next := (smallSigma1 (window.getD 13 0) + window.getD 8 0 +
      smallSigma0 (window.getD 0 0) + w) % 2 ^ 32
    rounds ks (window ++ [next]) (round s k w)
  | _, _, s => s

def compress (s : State) (block : List ℕ) : State :=
  let r := rounds roundConstants block s
  ⟨(s.a + r.a) % 2 ^ 32, (s.b + r.b) % 2 ^ 32, (s.c + r.c) % 2 ^ 32, (s.d + r.d) % 2 ^ 32,
   (s.e + r.e) % 2 ^ 32, (s.f + r.f) % 2 ^ 32, (s.g + r.g) % 2 ^ 32, (s.h + r.h) % 2 ^ 32⟩

/-- A one bit, zeros, and the length in 64 bits. -/
def padded (message : List UInt8) : List UInt8 :=
  message ++ 0x80 :: List.replicate ((119 - message.length % 64) % 64) 0 ++
    BigEndian.toBytes 8 (8 * message.length)

/-- The sixteen words of each 64-byte block. -/
def blocks (bytes : List UInt8) : List (List ℕ) :=
  (Chunks.wholeChunks 64 bytes).map fun block => (Chunks.wholeChunks 4 block).map BigEndian.ofBytes

def hash (message : List UInt8) : List UInt8 :=
  let s := (blocks (padded message)).foldl compress initial
  BigEndian.toBytes 4 s.a ++ BigEndian.toBytes 4 s.b ++ BigEndian.toBytes 4 s.c ++
    BigEndian.toBytes 4 s.d ++ BigEndian.toBytes 4 s.e ++ BigEndian.toBytes 4 s.f ++
    BigEndian.toBytes 4 s.g ++ BigEndian.toBytes 4 s.h

@[simp] theorem length_hash (message : List UInt8) : (hash message).length = 32 := by
  simp [hash]

/-- The digest of the one-block message `abc` (FIPS 180-4 test vector). -/
example : hash [0x61, 0x62, 0x63] =
    [0xba, 0x78, 0x16, 0xbf, 0x8f, 0x01, 0xcf, 0xea, 0x41, 0x41, 0x40, 0xde, 0x5d, 0xae, 0x22, 0x23,
     0xb0, 0x03, 0x61, 0xa3, 0x96, 0x17, 0x7a, 0x9c, 0xb4, 0x10, 0xff, 0x61, 0xf2, 0x00, 0x15, 0xad] := by
  decide +kernel

end Sha256
