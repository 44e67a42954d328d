import Mathlib.Tactic
import PathRace.Signal

/-! One signal with many handles. A handle can raise the signal, query it, wait for it, and give away
the cancellation token that waits listen to. The signal fires once for all handles if and only if no
such token is cancelled before the first raise (`fires_once_unless_forestalled`). -/

namespace PathRace

structure Handles where
  signal : Signal
  count : Nat
  deriving DecidableEq

namespace Handles

/-- The uses of a handle. -/
inductive Use
  | raise (cause : Cause)
  | clone
  /-- The token of the handle is cancelled. -/
  | cancel
  | isAborted
  | cause
  /-- A wait for the signal has its turn. -/
  | wait
  deriving DecidableEq

/-- The answer of a use. -/
inductive Told
  | raised (first : Bool)
  | cloned (handle : Nat)
  | cancelled
  | aborted (already : Bool)
  | cause (cause : Option Cause)
  /-- `none` while the wait goes on. -/
  | woken (cause : Option Cause)
  deriving DecidableEq

def new : Handles := ⟨Signal.quiet, 1⟩

def act (u : Use) (x : Handles) : Told × Handles :=
  match u with
  | .raise c => (.raised (x.signal.raise c).1, { x with signal := (x.signal.raise c).2 })
  | .clone => (.cloned x.count, { x with count := x.count + 1 })
  | .cancel => (.cancelled, { x with signal := x.signal.cancel })
  | .isAborted => (.aborted x.signal.stopped, x)
  | .cause => (.cause x.signal.cause, x)
  | .wait => (.woken x.signal.heard, x)

/-- A handle that does not exist has no effect. -/
def use (h : Nat) (u : Use) (x : Handles) : Option Told × Handles :=
  if h < x.count then (some (x.act u).1, (x.act u).2) else (none, x)

def after : List (Nat × Use) → Handles → Handles
  | [], x => x
  | (h, u) :: us, x => after us (x.use h u).2

def told : List (Nat × Use) → Handles → List Told
  | [], _ => []
  | (h, u) :: us, x => (x.use h u).1.toList ++ told us (x.use h u).2

/-- The signal before, between and after the uses. -/
def moments : List (Nat × Use) → Handles → List Signal
  | [], x => [x.signal]
  | (h, u) :: us, x => x.signal :: moments us (x.use h u).2

/-- A token is cancelled before any raise. -/
def forestalled : List (Nat × Use) → Handles → Bool
  | [], _ => false
  | (h, u) :: us, x =>
    (u == .cancel && decide (h < x.count) && x.signal.cause.isNone) || forestalled us (x.use h u).2

/-- The cause given by an answer. -/
def Told.cause? : Told → Option Cause
  | .cause c | .woken c => c
  | _ => none

/-- At most one raise is the first, every answer that finds the signal raised gives a cause, and all
give the same one. -/
structure SingleFire (us : List (Nat × Use)) : Prop where
  once : (told us new).count (.raised true) ≤ 1
  sound : ∀ s ∈ moments us new, s.stopped = s.cause.isSome
  agreed : ∀ t ∈ told us new, ∀ t' ∈ told us new, ∀ c ∈ t.cause?, ∀ c' ∈ t'.cause?, c = c'

variable {x : Handles} {c : Cause} {h : Nat} {u : Use} {us : List (Nat × Use)} {t : Told}

theorem use_cases (h : Nat) (u : Use) (x : Handles) :
    x.use h u = (none, x) ∨ h < x.count ∧ x.use h u = (some (x.act u).1, (x.act u).2) := by
  unfold use
  split_ifs with held
  · exact .inr ⟨held, rfl⟩
  · exact .inl rfl

/-! ### The cause -/

theorem count_act (u : Use) (x : Handles) :
    [(x.act u).1].count (.raised true) + x.signal.cause.toList.length =
      (x.act u).2.signal.cause.toList.length := by
  cases u with
  | raise c => cases hc : x.signal.cause <;> simp [act, Signal.raise, hc]
  | clone | cancel | isAborted | cause | wait => simp [act, Signal.cancel]

theorem count_told (us : List (Nat × Use)) (x : Handles) :
    (told us x).count (.raised true) + x.signal.cause.toList.length =
      (after us x).signal.cause.toList.length := by
  induction us generalizing x with
  | nil => simp [told, after]
  | cons e us ih =>
    obtain ⟨h, u⟩ := e
    have rest := ih (x.use h u).2
    rw [told, after, List.count_append]
    obtain nothing | ⟨-, done⟩ := use_cases h u x
    · rw [nothing] at rest ⊢
      simpa using rest
    · have first := count_act u x
      rw [done] at rest ⊢
      dsimp only [Option.toList_some] at rest first ⊢
      omega

theorem cause_use (hc : x.signal.cause = some c) (h : Nat) (u : Use) :
    (x.use h u).2.signal.cause = some c := by
  obtain nothing | ⟨-, done⟩ := use_cases h u x
  · rw [nothing]; exact hc
  · rw [done]
    cases u with
    | raise d => simp [act, Signal.raise_of_cause hc, hc]
    | clone | cancel | isAborted | cause | wait => exact hc

theorem cause_after (hc : x.signal.cause = some c) (us : List (Nat × Use)) :
    (after us x).signal.cause = some c := by
  induction us generalizing x with
  | nil => exact hc
  | cons e us ih => exact ih (cause_use hc e.1 e.2)

/-! ### Answers of the waits -/

/-- The signal has stopped without a cause. -/
def Mute (x : Handles) : Prop := x.signal.stopped = true ∧ x.signal.cause = none

theorem cause?_of_act (hc : c ∈ (x.act u).1.cause?) : x.signal.cause = some c ∨
    (x.act u).1 = .woken (some .cancelled) ∧ c = .cancelled ∧ x.Mute := by
  cases u with
  | raise | clone | cancel | isAborted => cases hc
  | cause => exact .inl hc
  | wait =>
    have heard : x.signal.heard = some c := hc
    unfold Signal.heard at heard
    split_ifs at heard with stopped
    cases cause : x.signal.cause with
    | some d => exact .inl (by simpa [cause] using heard)
    | none =>
      obtain rfl : .cancelled = c := by simpa [cause] using heard
      exact .inr ⟨by simp [act, Signal.heard, stopped, cause], rfl, stopped, cause⟩

theorem mute_of_use (mute : (x.use h u).2.Mute) :
    x.Mute ∨ forestalled ((h, u) :: us) x = true := by
  obtain nothing | ⟨held, done⟩ := use_cases h u x
  · rw [nothing] at mute
    exact .inl mute
  · rw [done] at mute
    cases u with
    | raise d =>
      have raised := mute.2
      simp [act, Signal.cause_raise] at raised
    | cancel =>
      have quiet : x.signal.cause = none := mute.2
      exact .inr (by simp [forestalled, held, quiet])
    | clone | isAborted | cause | wait => exact .inl mute

/-- The cause that is told is the one recorded in the end, unless a wait was ended by a token. -/
theorem cause?_of_told (ht : t ∈ told us x) (hc : c ∈ t.cause?) :
    (after us x).signal.cause = some c ∨ t = .woken (some .cancelled) ∧ c = .cancelled ∧
      (x.Mute ∨ forestalled us x = true) := by
  induction us generalizing x with
  | nil => cases ht
  | cons e us ih =>
    obtain ⟨h, u⟩ := e
    rcases List.mem_append.1 ht with first | rest
    · obtain nothing | ⟨-, done⟩ := use_cases h u x
      · rw [nothing] at first
        cases first
      · rw [done] at first
        obtain rfl : t = (x.act u).1 := by simpa using first
        obtain recorded | ⟨woken, rfl, mute⟩ := cause?_of_act hc
        · exact .inl (cause_after recorded ((h, u) :: us))
        · exact .inr ⟨woken, rfl, .inl mute⟩
    · obtain recorded | ⟨woken, rfl, mute | later⟩ := ih rest
      · exact .inl recorded
      · exact .inr ⟨woken, rfl, mute_of_use mute⟩
      · exact .inr ⟨woken, rfl, .inr (by simp [forestalled, later])⟩

/-! ### Tokens -/

theorem mem_moments_self (us : List (Nat × Use)) (x : Handles) : x.signal ∈ moments us x := by
  cases us <;> simp [moments]

/-- If a token is cancelled before any raise, the signal stops without a cause. -/
theorem mute_of_forestalled (early : forestalled us x = true) :
    ∃ s ∈ moments us x, s.stopped = true ∧ s.cause = none := by
  induction us generalizing x with
  | nil => cases early
  | cons e us ih =>
    obtain ⟨h, u⟩ := e
    rcases Bool.or_eq_true_iff.1 early with now | later
    · obtain ⟨⟨rfl, held⟩, quiet⟩ : (u = .cancel ∧ h < x.count) ∧ x.signal.cause = none := by
        simpa using now
      refine ⟨x.signal.cancel, List.mem_cons_of_mem _ ?_, rfl, quiet⟩
      have cancelled : (x.use h .cancel).2.signal = x.signal.cancel := by simp [use, held, act]
      rw [← cancelled]
      exact mem_moments_self us _
    · obtain ⟨s, hs, mute⟩ := ih later
      exact ⟨s, List.mem_cons_of_mem _ hs, mute⟩

theorem sound_use (sound : x.signal.stopped = x.signal.cause.isSome)
    (patient : forestalled ((h, u) :: us) x = false) :
    (x.use h u).2.signal.stopped = (x.use h u).2.signal.cause.isSome := by
  obtain nothing | ⟨held, done⟩ := use_cases h u x
  · rw [nothing]; exact sound
  · rw [done]
    cases u with
    | raise c => cases hc : x.signal.cause <;> simp_all [act, Signal.raise]
    | cancel =>
      have raised : x.signal.cause ≠ none := by
        intro quiet
        simp [forestalled, held, quiet] at patient
      simpa [act, Signal.cancel] using (Option.isSome_iff_ne_none.2 raised).symm
    | clone | isAborted | cause | wait => exact sound

theorem sound_moments (sound : x.signal.stopped = x.signal.cause.isSome)
    (patient : forestalled us x = false) : ∀ s ∈ moments us x, s.stopped = s.cause.isSome := by
  induction us generalizing x with
  | nil =>
    intro s hs
    obtain rfl := List.mem_singleton.1 hs
    exact sound
  | cons e us ih =>
    intro s hs
    rcases List.mem_cons.1 hs with rfl | later
    · exact sound
    · exact ih (sound_use sound patient) (Bool.or_eq_false_iff.1 patient).2 s later

/-- The first raise is the only one that reports success. Every later answer tells its cause, unless a
wait was ended by a token that was cancelled before that raise. The signal fires once for all handles if
and only if there is no such token. -/
theorem fires_once_unless_forestalled (us : List (Nat × Use)) :
    (told us new).count (.raised true) = (after us new).signal.cause.toList.length ∧
    (∀ t ∈ told us new, ∀ c ∈ t.cause?, (after us new).signal.cause = some c ∨
      t = .woken (some .cancelled) ∧ forestalled us new = true) ∧
    (SingleFire us ↔ forestalled us new = false) := by
  have once := count_told us new
  have given {t : Told} (ht : t ∈ told us new) {c : Cause} (hc : c ∈ t.cause?) :
      (after us new).signal.cause = some c ∨
        t = .woken (some .cancelled) ∧ forestalled us new = true := by
    refine (cause?_of_told ht hc).imp_right fun ⟨woken, _, early⟩ => ⟨woken, ?_⟩
    exact early.resolve_left fun mute => by cases mute.1
  refine ⟨once, fun t ht c hc => given ht hc, fun fires => ?_, fun patient => ⟨?_, ?_, ?_⟩⟩
  · by_contra early
    obtain ⟨s, hs, stopped, quiet⟩ := mute_of_forestalled (by simpa using early)
    have sound := fires.sound s hs
    rw [stopped, quiet] at sound
    cases sound
  · have most : (after us new).signal.cause.toList.length ≤ 1 := by
      cases (after us new).signal.cause <;> simp
    exact (Nat.le_add_right ..).trans (once.trans_le most)
  · exact sound_moments rfl patient
  · intro t ht t' ht' c hc c' hc'
    have recorded {t : Told} (ht : t ∈ told us new) {c : Cause} (hc : c ∈ t.cause?) :
        (after us new).signal.cause = some c := by
      refine (given ht hc).resolve_right fun ⟨_, early⟩ => ?_
      rw [patient] at early
      cases early
    exact Option.some.inj ((recorded ht hc).symm.trans (recorded ht' hc'))

/-- One handle waits while the other raises; a token is cancelled only after that. -/
theorem fires_once_unless_forestalled_patient :
    let us := [(0, .clone), (1, .wait), (0, .raise .protocolError), (1, .raise .closed), (1, .wait),
      (1, .cancel), (0, .cause), (0, .wait)]
    told us new = [.cloned 1, .woken none, .raised true, .raised false, .woken (some .protocolError),
      .cancelled, .cause (some .protocolError), .woken (some .protocolError)] ∧ SingleFire us := by
  intro us
  exact ⟨by decide, (fires_once_unless_forestalled us).2.2.2 (by decide)⟩

/-- A wait reports `cancelled`, and a raise after it still succeeds with another cause. -/
theorem not_singleFire_of_early_cancel :
    let us := [(0, .cancel), (0, .isAborted), (0, .cause), (0, .wait), (0, .raise .protocolError),
      (0, .cause)]
    told us new = [.cancelled, .aborted true, .cause none, .woken (some .cancelled), .raised true,
      .cause (some .protocolError)] ∧ ¬ SingleFire us := by
  intro us
  refine ⟨by decide, fun fires => ?_⟩
  have agreed := fires.agreed (.woken (some .cancelled)) (by decide) (.cause (some .protocolError))
    (by decide) .cancelled rfl .protocolError rfl
  cases agreed

end Handles

end PathRace
