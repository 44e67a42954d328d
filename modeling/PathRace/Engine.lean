import PathRace.Basic
import PathRace.Fault
import PathRace.Entropy

/-!
What an attempt asks of an engine: it is fed the chunks of each path, answers with frames to send
and news about paths, and never touches a path itself. `Engine.Finite` holds of engines whose
frames run out.
-/

namespace PathRace

/-- News about a path. The round trip is in microseconds. -/
inductive Update
  | ready (rtt : Nat)
  | nominated (hash : PathHash)
  deriving DecidableEq

/-- The result of one frame. The three parts are independent. -/
structure Outcome where
  update : Option Update
  out : Option Bytes
  ulp : Option Bytes
  deriving DecidableEq

namespace Outcome

def none : Outcome := ⟨.none, .none, .none⟩

def frame (b : Bytes) : Outcome := { none with out := some b }

def data (b : Bytes) : Outcome := { none with ulp := some b }

def news (u : Update) : Outcome := { none with update := some u }

def adding (u : Update) (o : Outcome) : Outcome := { o with update := some u }

def isEmpty (o : Outcome) : Bool := o.update.isNone && o.out.isNone && o.ulp.isNone

end Outcome

structure Setup where
  role : Role
  isNominator : Bool
  ak : AuthKey
  pids : List PathId
  deriving DecidableEq

class Engine (E : Type) where
  initialFrames : (now : Nat) → E → Entropy →
    Except EngineFault (List (PathId × Bytes)) × E × Entropy
  addChunk : PathId → Bytes → E → Except EngineFault Unit × E
  /-- `none` when no frame of the path is complete. -/
  processFrame : PathId → (now : Nat) → E → Entropy →
    Except EngineFault (Option Outcome) × E × Entropy
  nominate : PathId → E → Except EngineFault Outcome × E
  createFrame : Bytes → E → Except EngineFault Outcome × E
  isNominator : E → Bool
  nominatedPath : E → Option PathId
  /-- A bound on the outcomes that a path can still yield before it is fed again. Only the limit that
  `Election.onChunk` gives to `Election.drain` is made from it. -/
  pending : E → PathId → Nat

namespace Engine

variable {A B : Type} [Engine A] [Engine B]

instance : Engine (A ⊕ B) where
  initialFrames now e s := match e with
    | .inl a => let (r, a, s) := initialFrames now a s; (r, .inl a, s)
    | .inr b => let (r, b, s) := initialFrames now b s; (r, .inr b, s)
  addChunk pid chunk e := match e with
    | .inl a => let (r, a) := addChunk pid chunk a; (r, .inl a)
    | .inr b => let (r, b) := addChunk pid chunk b; (r, .inr b)
  processFrame pid now e s := match e with
    | .inl a => let (r, a, s) := processFrame pid now a s; (r, .inl a, s)
    | .inr b => let (r, b, s) := processFrame pid now b s; (r, .inr b, s)
  nominate pid e := match e with
    | .inl a => let (r, a) := nominate pid a; (r, .inl a)
    | .inr b => let (r, b) := nominate pid b; (r, .inr b)
  createFrame data e := match e with
    | .inl a => let (r, a) := createFrame data a; (r, .inl a)
    | .inr b => let (r, b) := createFrame data b; (r, .inr b)
  isNominator := Sum.elim isNominator isNominator
  nominatedPath := Sum.elim nominatedPath nominatedPath
  pending e pid := e.elim (pending · pid) (pending · pid)

end Engine

/-- Every outcome lowers `pending`. -/
class Engine.Finite (E : Type) [Engine E] : Prop where
  pending_lt : ∀ (pid : PathId) (now : Nat) (e : E) (s : Entropy) (o : Outcome) (e' : E)
      (s' : Entropy),
    Engine.processFrame pid now e s = (.ok (some o), e', s') →
      Engine.pending e' pid < Engine.pending e pid

end PathRace
