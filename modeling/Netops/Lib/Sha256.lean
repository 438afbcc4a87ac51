import Mathlib.Algebra.Ring.Nat
import Mathlib.Data.List.Basic

/-!
# SHA-256

The hash function of FIPS 180-4 on byte strings, with the digest as the 64 hexadecimal digits of
`hexdigest`.

* `hexdigest`           the digest;
* `hexdigest_length`, `hexdigest_lowerHex`   its form.
-/

namespace Sha256

/-- the first 32 bits of the fractional parts of the cube roots of the first 64 primes -/
def roundConstants : List UInt32 :=
  [0x428a2f98, 0x71374491, 0xb5c0fbcf, 0xe9b5dba5, 0x3956c25b, 0x59f111f1, 0x923f82a4, 0xab1c5ed5,
   0xd807aa98, 0x12835b01, 0x243185be, 0x550c7dc3, 0x72be5d74, 0x80deb1fe, 0x9bdc06a7, 0xc19bf174,
   0xe49b69c1, 0xefbe4786, 0x0fc19dc6, 0x240ca1cc, 0x2de92c6f, 0x4a7484aa, 0x5cb0a9dc, 0x76f988da,
   0x983e5152, 0xa831c66d, 0xb00327c8, 0xbf597fc7, 0xc6e00bf3, 0xd5a79147, 0x06ca6351, 0x14292967,
   0x27b70a85, 0x2e1b2138, 0x4d2c6dfc, 0x53380d13, 0x650a7354, 0x766a0abb, 0x81c2c92e, 0x92722c85,
   0xa2bfe8a1, 0xa81a664b, 0xc24b8b70, 0xc76c51a3, 0xd192e819, 0xd6990624, 0xf40e3585, 0x106aa070,
   0x19a4c116, 0x1e376c08, 0x2748774c, 0x34b0bcb5, 0x391c0cb3, 0x4ed8aa4a, 0x5b9cca4f, 0x682e6ff3,
   0x748f82ee, 0x78a5636f, 0x84c87814, 0x8cc70208, 0x90befffa, 0xa4506ceb, 0xbef9a3f7, 0xc67178f2]

/-- the eight working variables -/
structure Words where
  (a b c d e f g h : UInt32)

def initial : Words :=
  ⟨0x6a09e667, 0xbb67ae85, 0x3c6ef372, 0xa54ff53a, 0x510e527f, 0x9b05688c, 0x1f83d9ab, 0x5be0cd19⟩

def rotr (x n : UInt32) : UInt32 := (x >>> n) ||| (x <<< (32 - n))

/-- big-endian bytes of a number, `n` of them -/
def bigEndian : Nat → Nat → List UInt8
  | 0, _ => []
  | n+1, x => bigEndian n (x / 256) ++ [UInt8.ofNat (x % 256)]

/-- the message with its padding: a multiple of 64 bytes -/
def pad (message : List UInt8) : List UInt8 :=
  message ++ 0x80 :: List.replicate ((119 - message.length % 64) % 64) 0
    ++ bigEndian 8 (8 * message.length)

def word (bytes : List UInt8) : UInt32 :=
  UInt32.ofNat (bytes.foldl (fun n b => 256 * n + b.toNat) 0)

/-- the 16 words of a block -/
def blockWords (block : List UInt8) : List UInt32 :=
  (List.range 16).map fun i => word ((block.drop (4 * i)).take 4)

/-- the message schedule, the newest word first -/
def schedule (block : List UInt8) : List UInt32 :=
  (List.range 48).foldl (fun w _ =>
    let s0 := rotr (w.getD 14 0) 7 ^^^ rotr (w.getD 14 0) 18 ^^^ (w.getD 14 0 >>> 3)
    let s1 := rotr (w.getD 1 0) 17 ^^^ rotr (w.getD 1 0) 19 ^^^ (w.getD 1 0 >>> 10)
    (w.getD 15 0 + s0 + w.getD 6 0 + s1) :: w) (blockWords block).reverse

def round (x : Words) (kw : UInt32 × UInt32) : Words :=
  let s1 := rotr x.e 6 ^^^ rotr x.e 11 ^^^ rotr x.e 25
  let ch := (x.e &&& x.f) ^^^ (~~~x.e &&& x.g)
  let t1 := x.h + s1 + ch + kw.1 + kw.2
  let s0 := rotr x.a 2 ^^^ rotr x.a 13 ^^^ rotr x.a 22
  let maj := (x.a &&& x.b) ^^^ (x.a &&& x.c) ^^^ (x.b &&& x.c)
  ⟨t1 + s0 + maj, x.a, x.b, x.c, x.d + t1, x.e, x.f, x.g⟩

def compress (x : Words) (block : List UInt8) : Words :=
  let y := (roundConstants.zip (schedule block).reverse).foldl round x
  ⟨x.a + y.a, x.b + y.b, x.c + y.c, x.d + y.d, x.e + y.e, x.f + y.f, x.g + y.g, x.h + y.h⟩

def digest (message : List UInt8) : Words :=
  let padded := pad message
  (List.range (padded.length / 64)).foldl
    (fun x i => compress x ((padded.drop (64 * i)).take 64)) initial

/-- the digits of `hexdigest` -/
def lowerHex (c : Char) : Bool := ('0' ≤ c && c ≤ '9') || ('a' ≤ c && c ≤ 'f')

theorem digitChar_lowerHex : ∀ n < 16, lowerHex (Nat.digitChar n) = true := by decide

def hexWord (x : UInt32) : List Char :=
  (List.range 8).map fun i => Nat.digitChar (x.toNat / 16 ^ (7 - i) % 16)

/-- `hashlib.sha256(message).hexdigest()` -/
@[irreducible] def hexdigest (message : List UInt8) : List Char :=
  let x := digest message
  [x.a, x.b, x.c, x.d, x.e, x.f, x.g, x.h].flatMap hexWord

/-- `hashlib.sha256(message).digest()` -/
def digestBytes (message : List UInt8) : List UInt8 :=
  let x := digest message
  [x.a, x.b, x.c, x.d, x.e, x.f, x.g, x.h].flatMap fun w => bigEndian 4 w.toNat

/-- `hmac.digest(key, message, "sha256")` -/
@[irreducible] def hmac (key message : List UInt8) : List UInt8 :=
  let key := if 64 < key.length then digestBytes key else key
  let block := key ++ List.replicate (64 - key.length) 0
  digestBytes (block.map (· ^^^ 0x5c) ++ digestBytes (block.map (· ^^^ 0x36) ++ message))

theorem hexWord_length (x : UInt32) : (hexWord x).length = 8 := by
  simp [hexWord]

theorem hexWord_lowerHex {x : UInt32} {c : Char} (h : c ∈ hexWord x) : lowerHex c = true := by
  obtain ⟨i, -, rfl⟩ := List.mem_map.mp h
  exact digitChar_lowerHex _ (Nat.mod_lt _ (by decide))

theorem hexdigest_length (message : List UInt8) : (hexdigest message).length = 64 := by
  simp [hexdigest, hexWord_length]

theorem hexdigest_lowerHex {message : List UInt8} {c : Char} (h : c ∈ hexdigest message) :
    lowerHex c = true := by
  rw [hexdigest] at h
  obtain ⟨x, -, hc⟩ := List.mem_flatMap.mp h
  exact hexWord_lowerHex hc

end Sha256
