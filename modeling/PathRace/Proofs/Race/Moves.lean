import Mathlib.Tactic
import PathRace.Race

/-! The moves of a race, as one inductive type: its paths deliver, end and fail; its consumer receives,
writes, nominates or is dropped; the signal is raised; the watcher runs; the halves of the winner are
read from, written to and dropped. A run is any sequence of moves. -/

namespace PathRace

/-- The signal is unchanged or has been raised since. -/
def Signal.Later (s s' : Signal) : Prop := s' = s ∨ ∃ c, s' = (s.raise c).2

namespace Signal.Later

theorem refl (s : Signal) : s.Later s := .inl rfl

theorem raised (c : Cause) (s : Signal) : s.Later (s.raise c).2 := .inr ⟨c, rfl⟩

theorem trans {a b c : Signal} (h : a.Later b) (k : b.Later c) : a.Later c := by
  rcases k with rfl | ⟨d, rfl⟩
  · exact h
  · rcases h with rfl | ⟨e, rfl⟩
    · exact raised d _
    · refine .inr ⟨e, ?_⟩
      rw [raise_of_cause (cause_raise a e)]

theorem cause {s s' : Signal} (h : s.Later s') {c : Cause} (hc : s.cause = some c) :
    s'.cause = some c := by
  rcases h with rfl | ⟨d, rfl⟩
  · exact hc
  · rw [raise_of_cause hc, hc]

theorem stopped {s s' : Signal} (h : s.Later s') (hs : s.stopped = s.cause.isSome) :
    s'.stopped = s'.cause.isSome := by
  rcases h with rfl | ⟨d, rfl⟩
  · exact hs
  · unfold raise
    split
    · exact hs
    · rfl

end Signal.Later

namespace Race

inductive Move
  | raise (cause : Cause)
  | sweep
  /-- `item` is what the path has for its pump. -/
  | pump (pid : PathId) (item : Option Inbound)
  | receive
  | openWrite (pid : PathId)
  /-- An open write has failed. -/
  | failWrite (pid : PathId)
  | nominate (pid : PathId)
  | abandon
  | read
  | failWinnerWrite (fault : PathFault)
  | dropReader
  | dropWriter
  deriving DecidableEq

def isRacing (r : Race) : Bool := r.consumer == .racing

def hasReader (r : Race) : Bool :=
  match r.consumer with
  | .nominated _ _ reader _ => reader
  | _ => false

def hasWriter (r : Race) : Bool :=
  match r.consumer with
  | .nominated _ _ _ writer => writer
  | _ => false

/-- A move that is not enabled changes nothing. -/
def after (r : Race) : Move → Race
  | .raise cause => r.raise cause
  | .sweep => if r.canSweep then r.sweep else r
  | .pump pid item => if r.canPump pid item.isSome then r.pump pid item else r
  | .receive => if r.isRacing then r.receive.2 else r
  | .openWrite pid => if r.isRacing then (r.openWrite pid).2 else r
  | .failWrite pid => if r.isRacing then r.failWrite pid else r
  | .nominate pid => if r.isRacing then (r.nominate pid).2 else r
  | .abandon => r.abandon
  | .read => if r.hasReader then r.read.2 else r
  | .failWinnerWrite fault =>
    if r.hasWriter then (r.winner?.elim r fun pid => (r.failWinnerWrite pid fault).2) else r
  | .dropReader => if r.hasReader then r.dropReader else r
  | .dropWriter => if r.hasWriter then r.dropWriter else r

def run (ms : List Move) (r : Race) : Race := ms.foldl after r

theorem run_keeps {P : Race → Prop} (step : ∀ r m, P r → P (r.after m)) (ms : List Move) {r : Race}
    (h : P r) : P (run ms r) := by
  induction ms generalizing r with
  | nil => exact h
  | cons m ms ih => exact ih (step r m h)

/-! ### The table -/

/-- No path has been closed, and the table is unchanged. -/
structure SameTable (r r' : Race) : Prop where
  closes : r'.closes = r.closes
  ownership : r'.ownership = r.ownership
  watching : r'.watching = r.watching
  signal : r.signal.Later r'.signal

theorem SameTable.refl (r : Race) : SameTable r r := ⟨rfl, rfl, rfl, .refl _⟩

theorem SameTable.trans {a b c : Race} (h : SameTable a b) (k : SameTable b c) : SameTable a c :=
  ⟨k.closes.trans h.closes, k.ownership.trans h.ownership, k.watching.trans h.watching,
    h.signal.trans k.signal⟩

theorem SameTable.pids {r r' : Race} (h : SameTable r r') : r'.pids = r.pids := by
  simp only [Race.pids, h.ownership]

theorem sameTable_raise (c : Cause) (r : Race) : SameTable r (r.raise c) :=
  ⟨rfl, rfl, rfl, .raised c _⟩

theorem sameTable_halt (pid : PathId) (r : Race) : SameTable r (r.halt pid) :=
  ⟨rfl, rfl, rfl, .refl _⟩

theorem sameTable_grant (pid : PathId) (r : Race) : SameTable r (r.grant pid) := by
  unfold grant
  split_ifs
  · exact ⟨rfl, rfl, rfl, .raised .closed _⟩
  · split
    · exact .refl r
    · split_ifs <;> exact ⟨rfl, rfl, rfl, .refl _⟩

theorem sameTable_receive (r : Race) : SameTable r r.receive.2 := by
  unfold receive
  split
  · exact .refl r
  · split
    · exact ⟨rfl, rfl, rfl, .refl _⟩
    · split_ifs <;> exact .refl r

theorem sameTable_openWrite (pid : PathId) (r : Race) : SameTable r (r.openWrite pid).2 := by
  unfold openWrite
  split
  · exact .refl r
  · split_ifs
    · exact ⟨rfl, rfl, rfl, .refl _⟩
    all_goals exact .refl r

theorem sameTable_abandon (r : Race) : SameTable r r.abandon := by
  unfold abandon
  split
  · exact ⟨rfl, rfl, rfl, .raised .closed _⟩
  · exact .refl r

theorem sameTable_read (r : Race) : SameTable r r.read.2 := by
  unfold read
  split
  · exact ⟨rfl, rfl, rfl, .refl _⟩
  · split
    · exact .refl r
    · split
      · dsimp only
        split_ifs
        · exact ⟨rfl, rfl, rfl, .refl _⟩
        · exact ⟨rfl, rfl, rfl, .raised .protocolError _⟩
      · split_ifs <;> exact .refl r
  · exact .refl r

theorem sameTable_dropReader (r : Race) : SameTable r r.dropReader := by
  unfold dropReader
  split
  · dsimp only
    split_ifs
    · exact ⟨rfl, rfl, rfl, .refl _⟩
    · exact ⟨rfl, rfl, rfl, .raised .closed _⟩
  · exact .refl r

theorem sameTable_dropWriter (r : Race) : SameTable r r.dropWriter := by
  unfold dropWriter
  split
  · dsimp only
    split_ifs
    · exact ⟨rfl, rfl, rfl, .refl _⟩
    · exact ⟨rfl, rfl, rfl, .raised .closed _⟩
  · exact .refl r

end Race

end PathRace
