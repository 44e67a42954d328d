import PathRace.Bytes

/-!
Key agreement on the Montgomery form of Curve25519, by the ladder on numbers modulo `2^255 - 19`.
-/

namespace PathRace.Crypto.X25519

def modulus : Nat := (1 <<< 255) - 19

def mul (a b : Nat) : Nat := a * b % modulus

def add (a b : Nat) : Nat := (a + b) % modulus

def sub (a b : Nat) : Nat := (a + modulus - b) % modulus

/-- `x` to the exponent with these binary digits, most significant first. -/
def power (x : Nat) (digits : List Bool) : Nat :=
  digits.foldl (fun acc d => let sq := mul acc acc; if d then mul sq x else sq) 1

/-- The `n` low binary digits of `e`, most significant first. -/
def digits (n e : Nat) : List Bool := (List.range n).reverse.map e.testBit

def inverse (x : Nat) : Nat := power x (digits 255 (modulus - 2))

/-- The scalar of 32 raw bytes: a multiple of eight with its top bit fixed. -/
def scalar (b : Octets 32) : Nat :=
  let n := Bytes.ofLE b.val % (1 <<< 254)
  n - n % 8 + (1 <<< 254)

/-- Two multiples of the point that differ by the point, in projective form. -/
structure Pair where
  (x2 z2 x3 z3 : Nat)

def Pair.swap (p : Pair) : Pair := ⟨p.x3, p.z3, p.x2, p.z2⟩

def Pair.step (u : Nat) (p : Pair) : Pair :=
  let a := add p.x2 p.z2
  let aa := mul a a
  let b := sub p.x2 p.z2
  let bb := mul b b
  let e := sub aa bb
  let da := mul (sub p.x3 p.z3) a
  let cb := mul (add p.x3 p.z3) b
  let s := add da cb
  let d := sub da cb
  ⟨mul aa bb, mul e (add aa (mul 121665 e)), mul s s, mul u (mul d d)⟩

def ladder (u : Nat) (digits : List Bool) : Pair :=
  digits.foldl (fun p d => if d then (p.swap.step u).swap else p.step u) ⟨1, 0, u, 1⟩

/-- The top bit of an encoded coordinate is ignored. -/
def multiply (k : Octets 32) (point : Octets 32) : Octets 32 :=
  let u := Bytes.ofLE point.val % (1 <<< 255) % modulus
  let p := ladder u (digits 255 (scalar k))
  Octets.ofNat 32 (mul p.x2 (inverse p.z2))

def basePoint : Octets 32 := Octets.ofNat 32 9

def publicKey (secret : Octets 32) : Octets 32 := multiply secret basePoint

/-- Fails on the all-zero shared secret. -/
def agree (secret peer : Octets 32) : Option (Octets 32) :=
  let shared := multiply secret peer
  if shared = Octets.zero 32 then none else some shared

end PathRace.Crypto.X25519
