import PathRace.Backlog
import PathRace.Engine
import PathRace.Shortlist

/-!
The configuration of an attempt and what it must satisfy.
-/

namespace PathRace

structure Target where
  pid : PathId
  url : String
  deriving DecidableEq, Repr

structure Config where
  role : Role
  isNominator : Bool
  ak : AuthKey
  targets : List Target
  marks : Watermarks
  policy : Policy
  /-- In milliseconds. -/
  connectTimeout : Nat
  deriving DecidableEq

/-- The first element that has occurred before. -/
def firstRepeated [DecidableEq α] (seen : List α) : List α → Option α
  | [] => none
  | a :: rest => if a ∈ seen then some a else firstRepeated (a :: seen) rest

theorem firstRepeated_eq_none_iff [DecidableEq α] (seen l : List α) :
    firstRepeated seen l = none ↔ l.Nodup ∧ ∀ a ∈ l, a ∉ seen := by
  induction l generalizing seen with
  | nil => simp [firstRepeated]
  | cons a rest ih =>
    unfold firstRepeated
    split
    · rename_i h
      simp [h]
    · rename_i h
      simp only [ih, List.nodup_cons, List.mem_cons, not_or, forall_eq_or_imp]
      constructor
      · rintro ⟨hn, hm⟩
        exact ⟨⟨fun ha => (hm a ha).1 rfl, hn⟩, h, fun b hb => (hm b hb).2⟩
      · rintro ⟨⟨ha, hn⟩, -, hm⟩
        exact ⟨hn, fun b hb => ⟨fun e => ha (e ▸ hb), hm b hb⟩⟩

namespace Config

/-- By default the initiator is the nominator. -/
def standard (role : Role) (ak : AuthKey) : Config where
  role := role
  isNominator := role == .initiator
  ak := ak
  targets := []
  marks := Watermarks.standard
  policy := .eager
  connectTimeout := Limit.connectTimeout

def addTarget (pid : PathId) (url : String) (c : Config) : Config :=
  { c with targets := c.targets ++ [⟨pid, url⟩] }

def check (c : Config) : Except Failure Unit :=
  match firstRepeated [] (c.targets.map Target.pid) with
  | some pid => .error (.config s!"duplicate path id {pid}")
  | none =>
    if c.connectTimeout = 0 then .error (.config "connect timeout must be non-zero")
    else c.marks.check

def setup (c : Config) (pids : List PathId) : Setup := ⟨c.role, c.isNominator, c.ak, pids⟩

end Config

end PathRace
