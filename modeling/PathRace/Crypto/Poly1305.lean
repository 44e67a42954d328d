import PathRace.Bytes

/-!
The Poly1305 one-time authenticator, computed on natural numbers modulo `2^130 - 5`.
-/

namespace PathRace.Crypto.Poly1305

def modulus : Nat := (1 <<< 130) - 5

/-- The bits of the multiplier that the standard leaves set. -/
def clamp (r : Nat) : Nat := r &&& 0x0ffffffc0ffffffc0ffffffc0fffffff

/-- A block stands for its bytes with a one set above the last of them. -/
def blockValue (b : Bytes) : Nat := Bytes.ofLE b + (1 <<< (8 * b.length))

def absorb (r acc : Nat) (b : Bytes) : Nat :=
  if b = [] then acc
  else absorb r ((acc + blockValue (b.take 16)) * r % modulus) (b.drop 16)
termination_by b.length
decreasing_by
  have : b.length ≠ 0 := by simp_all
  simp; omega

/-- The first half of the key multiplies, the second is added at the end. -/
def tag (key : Octets 32) (data : Bytes) : Octets 16 :=
  let r := clamp (Bytes.ofLE (key.val.take 16))
  let s := Bytes.ofLE (key.val.drop 16)
  Octets.ofNat 16 (absorb r 0 data + s)

end PathRace.Crypto.Poly1305
