import PathRace.Proofs.Election.WinnerTakesAll

/-! The phase after a failed call of an election. A failing event aborts the election; a call in the
wrong phase changes nothing; a start that fails in the engine leaves the election ready to start
(`only_events_abort`). -/

namespace PathRace

namespace Election

variable {E : Type} [Engine E]

def Call.isHandle : Call → Bool
  | .handle .. => true
  | .start .. => false

/-- What a failing call leaves of an election that is not over. -/
inductive Fails (e : Election E) : Call → Election E → Prop
  | aborted {event : Event} {now : Nat} {s : Entropy} {e' : Election E}
      (started : e.phase = .nominating) : Fails e (.handle event now s) { e' with phase := .aborted }
  | early {event : Event} {now : Nat} {s : Entropy} (new : e.phase = .initializing) :
      Fails e (.handle event now s) e
  | twice {now : Nat} {s : Entropy} (started : e.phase = .nominating) : Fails e (.start now s) e
  | unstarted {now : Nat} {s : Entropy} {engine : E} (new : e.phase = .initializing) :
      Fails e (.start now s) { e with engine }

variable {e : Election E} {c : Call} {failure : Failure}

omit [Engine E] in
theorem phase_of_ongoing (ongoing : ¬ e.isOver) :
    e.phase = .initializing ∨ e.phase = .nominating := by
  cases hp : e.phase <;> simp_all [isOver]

theorem fails_start {now : Nat} {s : Entropy} (ongoing : ¬ e.isOver)
    (failed : (e.start now s).1 = .error failure) : Fails e (.start now s) (e.start now s).2.1 := by
  unfold start at failed ⊢
  obtain new | started := phase_of_ongoing ongoing
  · rw [if_neg (not_not.2 new)] at failed ⊢
    rcases answer : Engine.initialFrames now e.engine s with ⟨fault | frames, engine, s'⟩
    · exact .unstarted new
    · simp [answer] at failed
  · rw [if_pos (by simp [started])]
    exact .twice started

theorem fails_handle {event : Event} {now : Nat} {s : Entropy} (ongoing : ¬ e.isOver)
    (failed : (e.handle event now s).1 = .error failure) :
    Fails e (.handle event now s) (e.handle event now s).2.1 := by
  unfold handle at failed ⊢
  obtain new | started := phase_of_ongoing ongoing
  · rw [if_pos (by simp [new])]
    exact .early new
  · rw [if_neg (not_not.2 started)] at failed ⊢
    cases event with
    | frame pid chunk =>
      dsimp only at failed ⊢
      rcases answer : e.onChunk pid chunk now s with ⟨failure | actions, e', s'⟩
      · exact .aborted started
      · simp [answer] at failed
    | deadline live =>
      dsimp only at failed ⊢
      rcases answer : e.onDeadline live with ⟨failure | actions, e'⟩
      · exact .aborted started
      · simp [answer] at failed

theorem fails_call (ongoing : ¬ e.isOver) (failed : (e.call c).1 = .error failure) :
    Fails e c (e.call c).2 := by
  cases c with
  | start now s => exact fails_start ongoing failed
  | handle event now s => exact fails_handle ongoing failed

theorem call_of_over (ended : e.isOver) (c : Call) :
    (∃ failure, (e.call c).1 = .error failure) ∧ (e.call c).2 = e := by
  have closed : e.phase ≠ .initializing ∧ e.phase ≠ .nominating := by
    rcases ended with hp | hp <;> simp [hp]
  cases c with
  | start now s =>
    have refused : e.call (.start now s) = (.error (e.violation "handshake already started"), e) := by
      simp [call, start, closed.1]
    rw [refused]
    exact ⟨⟨_, rfl⟩, rfl⟩
  | handle event now s =>
    have refused : e.call (.handle event now s) =
        (.error (e.violation "handshake is not nominating"), e) := by simp [call, handle, closed.2]
    rw [refused]
    exact ⟨⟨_, rfl⟩, rfl⟩

theorem refusals_of_over (ended : e.isOver) (cs : List Call) :
    (∀ answer ∈ (life cs e).1, ∃ failure, answer = .error failure) ∧ (life cs e).2 = e := by
  induction cs with
  | nil => exact ⟨nofun, rfl⟩
  | cons c cs ih =>
    obtain ⟨failed, same⟩ := call_of_over ended c
    simp only [life, same]
    exact ⟨List.forall_mem_cons.2 ⟨failed, ih.1⟩, ih.2⟩

theorem start_iff (new : e.phase = .initializing) (now : Nat) (s : Entropy) :
    (∃ actions, (e.call (.start now s)).1 = .ok actions) ↔
      ∃ frames, (Engine.initialFrames now e.engine s).1 = .ok frames := by
  simp only [call, start, if_neg (not_not.2 new)]
  rcases Engine.initialFrames now e.engine s with ⟨fault | frames, engine, s'⟩ <;> simp

/-- Which failing calls end an election that is not over: those of `handle` after the start abort it,
and no later call succeeds. The others change neither the phase nor the shortlist, nor the engine unless
it was asked for its first frames; an election that has not started can still be started after them. -/
theorem only_events_abort (e : Election E) (c : Call) (failure : Failure) :
    let e' := (e.call c).2
    ¬ e.isOver → (e.call c).1 = .error failure →
      (e'.phase = .aborted ↔ e.phase = .nominating ∧ c.isHandle = true) ∧
      (e'.phase = .aborted → ∀ cs, (life cs e').2 = e' ∧
        ∀ answer ∈ (life cs e').1, ∃ failure, answer = .error failure) ∧
      (e'.phase ≠ .aborted → e'.phase = e.phase ∧ e'.shortlist = e.shortlist ∧
        (e' = e ∨ e.phase = .initializing ∧ c.isHandle = false)) ∧
      (e'.phase = .initializing → ∀ now s, (∃ actions, (e'.call (.start now s)).1 = .ok actions) ↔
        ∃ frames, (Engine.initialFrames now e'.engine s).1 = .ok frames) := by
  intro e' ongoing failed
  have fails : Fails e c e' := fails_call ongoing failed
  clear_value e'
  refine ⟨?_, fun aborted cs => ?_, fun alive => ?_, fun new => start_iff new⟩
  · cases fails with
    | aborted started => simp [started, Call.isHandle]
    | early new => simp [new]
    | twice started => simp [started, Call.isHandle]
    | unstarted new => simp [new]
  · exact (refusals_of_over (.inr aborted) cs).symm
  · cases fails with
    | aborted => exact (alive rfl).elim
    | early | twice => exact ⟨rfl, rfl, .inl rfl⟩
    | unstarted new => exact ⟨rfl, rfl, .inr ⟨new, rfl⟩⟩

/-- Has no first frames, fails to make them if there is a fault, and takes every chunk for payload. -/
def payloadScript (fault : Option EngineFault) : Script where
  isNominator := false
  frames := fault.elim (.ok []) .error
  rules := [⟨none, none, none, [.plain (.data [])]⟩]
  nominations := []
  creation := none
  queue := []
  nominated := none
  calls := []

/-- Payload before the nomination aborts an election. -/
theorem only_events_abort_payload :
    let e := (life [.start 0 (.cycle [])] (new (payloadScript none) .eager)).2
    let c := Call.handle (.frame 1 [7]) 0 (.cycle [])
    ¬ e.isOver ∧ (e.call c).1 = .error (.contractViolation .nominating
      "ULP data before nomination") ∧ (e.call c).2.phase = .aborted ∧
      ∀ answer ∈ (life [c, c] (e.call c).2).1, ∃ failure, answer = .error failure := by
  intro e c
  have ongoing : ¬ e.isOver := by rintro (nominated | aborted) <;> contradiction
  have failed : (e.call c).1 = .error (.contractViolation .nominating "ULP data before nomination") := by
    rfl
  obtain ⟨aborts, final, -⟩ := only_events_abort e c _ ongoing failed
  have aborted := aborts.2 ⟨by decide, rfl⟩
  exact ⟨ongoing, failed, aborted, (final aborted [c, c]).2⟩

/-- An early event, a second start and a failing first start return failures without ending the
election. -/
theorem not_aborted_by_every_failure :
    let early := Call.handle (.deadline []) 0 (.cycle [])
    let start := Call.start 0 (.cycle [])
    (life [early, start, start, early] (new (payloadScript none) .eager)).1 =
      [.error (.contractViolation .initializing "handshake is not nominating"), .ok [],
        .error (.contractViolation .nominating "handshake already started"), .ok []] ∧
    (life [start] (new (payloadScript (some .notNominated)) .eager)).1 =
      [.error (.engine .initializing none "create initial frames" .notNominated)] ∧
    (life [start] (new (payloadScript (some .notNominated)) .eager)).2.phase = .initializing := by
  exact ⟨rfl, rfl, rfl⟩

end Election

end PathRace
