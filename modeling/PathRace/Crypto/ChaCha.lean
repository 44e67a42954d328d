import PathRace.Bytes

/-!
The ChaCha20 block function on sixteen 32-bit words, the key stream it gives for a 12-byte
nonce, and the HChaCha20 subkey that makes room for a 24-byte nonce.
-/

namespace PathRace.Crypto.ChaCha

abbrev State := Vector UInt32 16

/-- Four positions that are mixed with one another. -/
structure Quad where
  (a b c d : Fin 16)

/-- The columns of the state, then its diagonals. -/
def quads : List Quad := [⟨0, 4, 8, 12⟩, ⟨1, 5, 9, 13⟩, ⟨2, 6, 10, 14⟩, ⟨3, 7, 11, 15⟩,
  ⟨0, 5, 10, 15⟩, ⟨1, 6, 11, 12⟩, ⟨2, 7, 8, 13⟩, ⟨3, 4, 9, 14⟩]

namespace State

def read (s : State) (i : Fin 16) : UInt32 := s[i]

def update (s : State) (q : Quad) (a b c d : UInt32) : State :=
  (((s.set q.a a).set q.b b).set q.c c).set q.d d

end State

def rotl (x k : UInt32) : UInt32 := (x <<< k) ||| (x >>> (32 - k))

def quarter (s : State) (q : Quad) : State :=
  let a := s.read q.a + s.read q.b
  let d := rotl (s.read q.d ^^^ a) 16
  let c := s.read q.c + d
  let b := rotl (s.read q.b ^^^ c) 12
  let a := a + b
  let d := rotl (d ^^^ a) 8
  let c := c + d
  let b := rotl (b ^^^ c) 7
  s.update q a b c d

def doubleRound (s : State) : State := quads.foldl quarter s

def rounds : Nat → State → State
  | 0, s => s
  | n + 1, s => rounds n (doubleRound s)

/-- The little-endian 32-bit word at byte `4 * i`. -/
def word (b : Bytes) (i : Nat) : UInt32 :=
  UInt32.ofNat (Bytes.ofLE ((b.drop (4 * i)).take 4))

def wordBytes (w : UInt32) : Bytes :=
  [w.toUInt8, (w >>> 8).toUInt8, (w >>> 16).toUInt8, (w >>> 24).toUInt8]

/-- The constants, eight key words and four words of counter and nonce. -/
def setup (key : Octets 32) (tail : Vector UInt32 4) : State :=
  let k := word key.val
  #v[0x61707865, 0x3320646e, 0x79622d32, 0x6b206574, k 0, k 1, k 2, k 3, k 4, k 5, k 6, k 7,
    tail[0], tail[1], tail[2], tail[3]]

def block (key : Octets 32) (nonce : Octets 12) (counter : UInt32) : Bytes :=
  let n := word nonce.val
  let s := setup key #v[counter, n 0, n 1, n 2]
  ((Vector.zipWith (· + ·) (rounds 10 s) s).toList).flatMap wordBytes

def keyStream (key : Octets 32) (nonce : Octets 12) (first count : Nat) : Bytes :=
  (List.range count).flatMap fun i => block key nonce (UInt32.ofNat (first + i))

def applyStream (key : Octets 32) (nonce : Octets 12) (first : Nat) (data : Bytes) : Bytes :=
  List.zipWith (· ^^^ ·) data (keyStream key nonce first ((data.length + 63) / 64))

/-- HChaCha20: the first and the last four words after the rounds. -/
def subkey (key : Octets 32) (nonce : Octets 16) : Octets 32 :=
  let n := word nonce.val
  let s := rounds 10 (setup key #v[n 0, n 1, n 2, n 3])
  Octets.fit 32 ((s.toList.take 4 ++ s.toList.drop 12).flatMap wordBytes)

theorem length_flatMap_wordBytes (l : List UInt32) :
    (l.flatMap wordBytes).length = 4 * l.length := by
  induction l with
  | nil => rfl
  | cons w r ih =>
    simp only [List.flatMap_cons, List.length_append, ih, List.length_cons, wordBytes]
    simp
    omega

theorem length_block (key : Octets 32) (nonce : Octets 12) (counter : UInt32) :
    (block key nonce counter).length = 64 := by
  rw [block, length_flatMap_wordBytes, Vector.length_toList]

theorem length_keyStream (key : Octets 32) (nonce : Octets 12) (first count : Nat) :
    (keyStream key nonce first count).length = 64 * count := by
  have (l : List Nat) : (l.flatMap fun i => block key nonce (UInt32.ofNat (first + i))).length
      = 64 * l.length := by
    induction l with
    | nil => rfl
    | cons i r ih =>
      simp only [List.flatMap_cons, List.length_append, length_block, ih, List.length_cons]; omega
  rw [keyStream, this, List.length_range]

@[simp] theorem length_applyStream (key : Octets 32) (nonce : Octets 12) (first : Nat)
    (data : Bytes) : (applyStream key nonce first data).length = data.length := by
  simp only [applyStream, List.length_zipWith, length_keyStream]
  omega

private theorem zipWith_xor_twice (a k : Bytes) (h : a.length ≤ k.length) :
    List.zipWith (· ^^^ ·) (List.zipWith (· ^^^ ·) a k) k = a := by
  induction a generalizing k with
  | nil => rfl
  | cons x a ih =>
    cases k with
    | nil => simp at h
    | cons y k =>
      simp only [List.zipWith_cons_cons, List.cons.injEq]
      exact ⟨by rw [UInt8.xor_assoc, UInt8.xor_self, UInt8.xor_zero], ih k (by simpa using h)⟩

theorem applyStream_applyStream (key : Octets 32) (nonce : Octets 12) (first : Nat)
    (data : Bytes) : applyStream key nonce first (applyStream key nonce first data) = data := by
  have h := length_keyStream key nonce first ((data.length + 63) / 64)
  rw [applyStream, length_applyStream]
  exact zipWith_xor_twice _ _ (by omega)

end PathRace.Crypto.ChaCha
