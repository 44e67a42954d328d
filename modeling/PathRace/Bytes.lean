/-!
Byte strings, and byte strings of a fixed length. A number is written least significant byte
first by `Bytes.le`; `Bytes.ofLE` reads it back.
-/

namespace PathRace

abbrev Bytes := List UInt8

/-- Exactly `n` bytes. -/
abbrev Octets (n : Nat) := { b : Bytes // b.length = n }

namespace Octets

def ofBytes? (n : Nat) (b : Bytes) : Option (Octets n) :=
  if h : b.length = n then some ⟨b, h⟩ else none

/-- The first `n` bytes, with zeros where there are none. -/
def fit (n : Nat) (b : Bytes) : Octets n :=
  ⟨(b ++ List.replicate n 0).take n, by simp⟩

def zero (n : Nat) : Octets n := ⟨List.replicate n 0, by simp⟩

theorem ofBytes?_eq_some_iff {n : Nat} {b : Bytes} {o : Octets n} :
    ofBytes? n b = some o ↔ b = o.val := by
  unfold ofBytes?
  split
  · simp [Subtype.ext_iff]
  · rename_i h
    simp only [reduceCtorEq, false_iff]
    rintro rfl
    exact h o.property

@[simp] theorem ofBytes?_val {n : Nat} (o : Octets n) : ofBytes? n o.val = some o :=
  ofBytes?_eq_some_iff.2 rfl

end Octets

namespace Bytes

/-- The `k` low bytes of `n`, least significant first. -/
def le : Nat → Nat → Bytes
  | 0, _ => []
  | k + 1, n => UInt8.ofNat n :: le k (n / 256)

def ofLE : Bytes → Nat
  | [] => 0
  | b :: r => b.toNat + 256 * ofLE r

@[simp] theorem length_le (k n : Nat) : (le k n).length = k := by
  induction k generalizing n with
  | zero => rfl
  | succ k ih => simp [le, ih]

theorem ofLE_le (k n : Nat) : ofLE (le k n) = n % Nat.pow 256 k := by
  induction k generalizing n with
  | zero => simp [le, ofLE, Nat.pow, Nat.mod_one]
  | succ k ih =>
    have low : (UInt8.ofNat n).toNat = n % 256 := by simp
    have next : Nat.pow 256 (k + 1) = 256 * Nat.pow 256 k := Nat.mul_comm _ _
    rw [le, ofLE, ih, low, next, Nat.mod_mul]

theorem le_ofLE (b : Bytes) : le b.length (ofLE b) = b := by
  induction b with
  | nil => rfl
  | cons x r ih =>
    have hx := x.toNat_lt
    have hd : (x.toNat + 256 * ofLE r) / 256 = ofLE r := by omega
    simp only [ofLE, List.length_cons, le, hd, ih, List.cons.injEq, and_true]
    apply UInt8.toNat_inj.1
    simp only [UInt8.toNat_ofNat']
    omega

end Bytes

def Octets.ofNat (k n : Nat) : Octets k := ⟨Bytes.le k n, Bytes.length_le k n⟩

namespace Bytes

/-- Most significant byte first. -/
def be (k n : Nat) : Bytes := (le k n).reverse

def ofBE (b : Bytes) : Nat := ofLE b.reverse

/-- Pieces of `k` bytes, the last one as long as what is left. -/
def chunks (k : Nat) (b : Bytes) : List Bytes :=
  if b = [] ∨ k = 0 then [] else b.take k :: chunks k (b.drop k)
termination_by b.length
decreasing_by
  have : b.length ≠ 0 := by simp_all
  simp; omega

theorem flatten_chunks {k : Nat} (hk : k ≠ 0) (b : Bytes) : (chunks k b).flatten = b := by
  fun_induction chunks k b with
  | case1 b h => simp_all
  | case2 b h ih => simp [ih]

theorem length_of_mem_chunks {k : Nat} {b c : Bytes} (h : c ∈ chunks k b) :
    0 < c.length ∧ c.length ≤ k := by
  fun_induction chunks k b with
  | case1 => simp at h
  | case2 b hb ih =>
    rcases List.mem_cons.1 h with rfl | h
    · have : b.length ≠ 0 := by simp_all
      simp only [List.length_take]
      omega
    · exact ih h

end Bytes

end PathRace
