import PathRace.Bytes

/-!
Random bytes, taken one after the other from a stream.
-/

namespace PathRace

structure Entropy where
  stream : Nat → UInt8
  drawn : Nat

namespace Entropy

def draw (n : Nat) (e : Entropy) : Octets n × Entropy :=
  (⟨(List.range n).map fun i => e.stream (e.drawn + i), by simp⟩, { e with drawn := e.drawn + n })

def draws (n : Nat) : Nat → Entropy → List (Octets n) × Entropy
  | 0, e => ([], e)
  | k + 1, e =>
    let (first, e) := e.draw n
    let (rest, e) := e.draws n k
    (first :: rest, e)

/-- The bytes repeated for ever, or zeros if there are none. -/
def cycle (bytes : Bytes) : Entropy :=
  let a := bytes.toArray
  ⟨fun i => a.getD (i % a.size) 0, 0⟩

@[simp] theorem drawn_draw (n : Nat) (e : Entropy) : (e.draw n).2.drawn = e.drawn + n := rfl

@[simp] theorem stream_draw (n : Nat) (e : Entropy) : (e.draw n).2.stream = e.stream := rfl

end Entropy

end PathRace
