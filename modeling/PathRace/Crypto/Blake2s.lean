import PathRace.Crypto.ChaCha

/-!
BLAKE2s with a 32-byte digest and no key.
-/

namespace PathRace.Crypto.Blake2s

def iv : Vector UInt32 8 :=
  #v[0x6a09e667, 0xbb67ae85, 0x3c6ef372, 0xa54ff53a, 0x510e527f, 0x9b05688c, 0x1f83d9ab, 0x5be0cd19]

/-- The order of the message words, round by round. -/
def permutations : List (List Nat) := [
  [0, 1, 2, 3, 4, 5, 6, 7, 8, 9, 10, 11, 12, 13, 14, 15],
  [14, 10, 4, 8, 9, 15, 13, 6, 1, 12, 0, 2, 11, 7, 5, 3],
  [11, 8, 12, 0, 5, 2, 15, 13, 10, 14, 3, 6, 7, 1, 9, 4],
  [7, 9, 3, 1, 13, 12, 11, 14, 2, 6, 5, 10, 4, 0, 15, 8],
  [9, 0, 5, 7, 2, 4, 10, 15, 14, 1, 11, 12, 6, 8, 3, 13],
  [2, 12, 6, 10, 0, 11, 8, 3, 4, 13, 7, 5, 15, 14, 1, 9],
  [12, 5, 1, 15, 14, 13, 4, 10, 0, 7, 6, 3, 9, 2, 8, 11],
  [13, 11, 7, 14, 12, 1, 3, 9, 5, 0, 15, 4, 8, 6, 2, 10],
  [6, 15, 14, 9, 11, 3, 0, 8, 12, 2, 13, 7, 1, 4, 10, 5],
  [10, 2, 8, 4, 7, 6, 1, 5, 15, 11, 9, 14, 3, 12, 13, 0]]

def rotr (x k : UInt32) : UInt32 := (x >>> k) ||| (x <<< (32 - k))

def mix (v : ChaCha.State) (q : ChaCha.Quad) (x y : UInt32) : ChaCha.State :=
  let a := v.read q.a + v.read q.b + x
  let d := rotr (v.read q.d ^^^ a) 16
  let c := v.read q.c + d
  let b := rotr (v.read q.b ^^^ c) 12
  let a := a + b + y
  let d := rotr (d ^^^ a) 8
  let c := c + d
  let b := rotr (b ^^^ c) 7
  v.update q a b c d

def round (m : Nat → UInt32) (v : ChaCha.State) (p : List Nat) : ChaCha.State :=
  (ChaCha.quads.foldl (fun (v, p) q =>
    match p with
    | i :: j :: rest => (mix v q (m i) (m j), rest)
    | _ => (v, p)) (v, p)).1

/-- One block, after `count` bytes in all; `final` marks the last. -/
def compress (h : Vector UInt32 8) (block : Bytes) (count : Nat) (final : Bool) : Vector UInt32 8 :=
  let low := UInt32.ofNat count
  let high := UInt32.ofNat (count >>> 32)
  let flag : UInt32 := if final then 0xffffffff else 0
  let start : ChaCha.State := h ++
    #v[iv[0], iv[1], iv[2], iv[3], iv[4] ^^^ low, iv[5] ^^^ high, iv[6] ^^^ flag, iv[7]]
  let v := permutations.foldl (round (ChaCha.word block)) start
  Vector.ofFn fun (i : Fin 8) => h[i] ^^^ v[i.val] ^^^ v[i.val + 8]

/-- Blocks of 64 bytes, the last one filled up with zeros. -/
def absorb (h : Vector UInt32 8) (count : Nat) (b : Bytes) : Vector UInt32 8 :=
  if b.length ≤ 64 then compress h (Octets.fit 64 b).val (count + b.length) true
  else absorb (compress h (b.take 64) (count + 64) false) (count + 64) (b.drop 64)
termination_by b.length
decreasing_by simp; omega

def hash (b : Bytes) : Octets 32 :=
  Octets.fit 32 ((absorb (iv.set 0 (iv[0] ^^^ 0x01010020)) 0 b).toList.flatMap ChaCha.wordBytes)

end PathRace.Crypto.Blake2s
