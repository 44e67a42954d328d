import PathRace.Basic

/-!
Choosing the path to nominate among those that are ready. At most one path is ever requested, and a
request stays: every operation that may choose a path satisfies `Picks`.

Times are milliseconds as natural numbers.
-/

namespace PathRace

/-- Nominate the first path that is ready, or the one with the least round trip of those ready within a
window of milliseconds. The end of the window, `now + window`, is assumed to be a time that the clock of
the platform can represent. -/
inductive Policy
  | eager
  | bestRtt (window : Nat)
  deriving DecidableEq, Repr

structure Shortlist where
  policy : Policy
  /-- Paths and their round trips, in the order of the reports. -/
  candidates : List (PathId × Nat)
  deadline : Option Nat
  requested : Option PathId
  deriving DecidableEq

namespace Shortlist

def new (policy : Policy) : Shortlist := ⟨policy, [], none, none⟩

/-- The candidate with the least round trip, the earliest of equals. -/
def quickest : List (PathId × Nat) → Option (PathId × Nat)
  | [] => none
  | c :: rest =>
    match quickest rest with
    | none => some c
    | some d => if d.2 < c.2 then some d else some c

def request (pid : PathId) (l : Shortlist) : Option PathId × Shortlist :=
  match l.requested with
  | some _ => (none, l)
  | none => (some pid, { l with requested := some pid })

/-- Ends the collection, with a choice among the candidates that qualify. -/
def choose (qualifies : PathId → Bool) (l : Shortlist) : Option PathId × Shortlist :=
  let best := quickest (l.candidates.filter fun c => qualifies c.1)
  let l := { l with candidates := [] }
  match best with
  | none => (none, l)
  | some (pid, _) => l.request pid

/-- Records that a path is ready. Answers with the path to nominate at once, if any. -/
def onReady (pid : PathId) (rtt now : Nat) (l : Shortlist) : Option PathId × Shortlist :=
  if l.requested.isSome then (none, l)
  else
    match l.policy with
    | .eager => l.request pid
    | .bestRtt window =>
      let l := { l with candidates := l.candidates ++ [(pid, rtt)] }
      if window = 0 then l.choose fun _ => true
      else (none, { l with deadline := some (l.deadline.getD (now + window)) })

/-- Ends the window. Only a path that is still alive can be chosen. -/
def expire (live : List PathId) (l : Shortlist) : Option PathId × Shortlist :=
  { l with deadline := none }.choose fun pid => live.contains pid

/-- A choice is a first request, and anything else leaves the request as it is. -/
def Picks (l : Shortlist) : Option PathId × Shortlist → Prop
  | (none, l') => l'.requested = l.requested
  | (some chosen, l') => l.requested = none ∧ l'.requested = some chosen

theorem picks_request (pid : PathId) (l : Shortlist) : l.Picks (l.request pid) := by
  unfold request
  cases h : l.requested with
  | none => exact ⟨h, rfl⟩
  | some => rfl

theorem picks_choose (qualifies : PathId → Bool) (l : Shortlist) : l.Picks (l.choose qualifies) := by
  unfold choose
  cases quickest (l.candidates.filter fun c => qualifies c.1) with
  | none => rfl
  | some best => exact picks_request best.1 { l with candidates := [] }

theorem picks_onReady (pid : PathId) (rtt now : Nat) (l : Shortlist) :
    l.Picks (l.onReady pid rtt now) := by
  unfold onReady
  split
  · rfl
  · split
    · exact picks_request pid l
    · dsimp only
      split
      · exact picks_choose _ { l with candidates := l.candidates ++ [(pid, rtt)] }
      · rfl

theorem picks_expire (live : List PathId) (l : Shortlist) : l.Picks (l.expire live) :=
  picks_choose _ { l with deadline := none }

def text (l : Shortlist) : String :=
  let policy := match l.policy with
    | .eager => "Eager"
    | .bestRtt window => Render.record "BestRtt" [("window", s!"{window}ms")] true
  Render.record "Nominator"
    [("policy", policy),
      ("candidates", Render.list (fun c : PathId × Nat => s!"({c.1}, {c.2}µs)") l.candidates),
      ("deadline", Render.option (fun t : Nat => toString t) l.deadline),
      ("requested", Render.option (fun p : PathId => toString p) l.requested)] true

end Shortlist

end PathRace
