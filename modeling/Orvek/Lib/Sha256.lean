import Mathlib.Data.List.Basic
import Mathlib.Algebra.GroupWithZero.Nat

/-!
# SHA-256

The hash function of FIPS 180-4 on byte strings, as a function to the natural numbers below
`2 ^ 256`.  Words are natural numbers below `2 ^ 32`.

* `pad`        the message with its padding;
* `schedule`   the 64 words of one block;
* `compress`   one block;
* `sha256`     the whole message.
-/

namespace Sha2

def word (n : Nat) : Nat := n % 2 ^ 32

/-- rotation to the right -/
def rotr (x n : Nat) : Nat := word (x >>> n ||| x <<< (32 - n))

def sigma0 (x : Nat) : Nat := rotr x 7 ^^^ rotr x 18 ^^^ x >>> 3
def sigma1 (x : Nat) : Nat := rotr x 17 ^^^ rotr x 19 ^^^ x >>> 10
def bigSigma0 (x : Nat) : Nat := rotr x 2 ^^^ rotr x 13 ^^^ rotr x 22
def bigSigma1 (x : Nat) : Nat := rotr x 6 ^^^ rotr x 11 ^^^ rotr x 25
def choose (x y z : Nat) : Nat := (x &&& y) ^^^ ((2 ^ 32 - 1 - x) &&& z)
def majority (x y z : Nat) : Nat := (x &&& y) ^^^ (x &&& z) ^^^ (y &&& z)

def roundConstants : List Nat :=
  [0x428a2f98, 0x71374491, 0xb5c0fbcf, 0xe9b5dba5, 0x3956c25b, 0x59f111f1, 0x923f82a4, 0xab1c5ed5,
   0xd807aa98, 0x12835b01, 0x243185be, 0x550c7dc3, 0x72be5d74, 0x80deb1fe, 0x9bdc06a7, 0xc19bf174,
   0xe49b69c1, 0xefbe4786, 0x0fc19dc6, 0x240ca1cc, 0x2de92c6f, 0x4a7484aa, 0x5cb0a9dc, 0x76f988da,
   0x983e5152, 0xa831c66d, 0xb00327c8, 0xbf597fc7, 0xc6e00bf3, 0xd5a79147, 0x06ca6351, 0x14292967,
   0x27b70a85, 0x2e1b2138, 0x4d2c6dfc, 0x53380d13, 0x650a7354, 0x766a0abb, 0x81c2c92e, 0x92722c85,
   0xa2bfe8a1, 0xa81a664b, 0xc24b8b70, 0xc76c51a3, 0xd192e819, 0xd6990624, 0xf40e3585, 0x106aa070,
   0x19a4c116, 0x1e376c08, 0x2748774c, 0x34b0bcb5, 0x391c0cb3, 0x4ed8aa4a, 0x5b9cca4f, 0x682e6ff3,
   0x748f82ee, 0x78a5636f, 0x84c87814, 0x8cc70208, 0x90befffa, 0xa4506ceb, 0xbef9a3f7, 0xc67178f2]

def initialHash : List Nat :=
  [0x6a09e667, 0xbb67ae85, 0x3c6ef372, 0xa54ff53a, 0x510e527f, 0x9b05688c, 0x1f83d9ab, 0x5be0cd19]

/-- the `count` low bytes of `n`, the most significant one first -/
def bigEndian (count n : Nat) : List Nat :=
  (List.range count).map fun i => n >>> (8 * (count - 1 - i)) % 256

def pad (message : List Nat) : List Nat :=
  let zeros := (55 + 64 - message.length % 64) % 64
  message ++ 0x80 :: List.replicate zeros 0 ++ bigEndian 8 (8 * message.length)

/-- the words of a list of bytes; the second argument bounds their number -/
def words : Nat → List Nat → List Nat
  | n + 1, a :: b :: c :: d :: rest =>
    (a <<< 24 ||| b <<< 16 ||| c <<< 8 ||| d) :: words n rest
  | _, _ => []

/-- the message schedule, latest word first -/
def extend : Nat → List Nat → List Nat
  | 0, ws => ws
  | n + 1, ws =>
    extend n (word (sigma1 (ws.getD 1 0) + ws.getD 6 0 + sigma0 (ws.getD 14 0) + ws.getD 15 0) :: ws)

def schedule (block : List Nat) : List Nat := (extend 48 (words 16 block).reverse).reverse

def round (h : List Nat) (k : Nat × Nat) : List Nat :=
  match h with
  | [a, b, c, d, e, f, g, x] =>
    let t1 := x + bigSigma1 e + choose e f g + k.1 + k.2
    let t2 := bigSigma0 a + majority a b c
    [word (t1 + t2), a, b, c, word (d + t1), e, f, g]
  | _ => h

def compress (h block : List Nat) : List Nat :=
  (h.zipWith (fun x y => word (x + y)) ((roundConstants.zip (schedule block)).foldl round h))

/-- the blocks of a padded message, the first argument bounds their number -/
def blocks : Nat → List Nat → List (List Nat)
  | 0, _ => []
  | n + 1, bytes => bytes.take 64 :: blocks n (bytes.drop 64)

def sha256 (message : List UInt8) : Nat :=
  let padded := pad (message.map UInt8.toNat)
  ((blocks (padded.length / 64) padded).foldl compress initialHash).foldl
    (fun acc w => acc <<< 32 ||| w) 0

-- the one-block example of the standard, "abc"
example : sha256 [0x61, 0x62, 0x63] =
    0xba7816bf8f01cfea414140de5dae2223b00361a396177a9cb410ff61f20015ad := by
  decide +kernel

end Sha2
