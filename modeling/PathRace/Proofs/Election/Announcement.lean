import Mathlib.Tactic
import PathRace.Election

/-! The actions of one call announce at most one winner; if they announce one, the election is over and
its engine has nominated that path (`announced_handle`). -/

namespace PathRace

def Action.winner? : Action → Option (PathId × PathHash)
  | .send .. => none
  | .nominated pid hash => some (pid, hash)

def winners (actions : List Action) : List (PathId × PathHash) :=
  actions.filterMap Action.winner?

@[simp] theorem winners_nil : winners [] = [] := rfl

@[simp] theorem winners_send (pid : PathId) (frame : Bytes) (rest : List Action) :
    winners (.send pid frame :: rest) = winners rest := rfl

@[simp] theorem winners_nominated (pid : PathId) (hash : PathHash) (rest : List Action) :
    winners (.nominated pid hash :: rest) = (pid, hash) :: winners rest := rfl

@[simp] theorem winners_append (a b : List Action) : winners (a ++ b) = winners a ++ winners b :=
  List.filterMap_append

@[simp] theorem winners_map_send (pid : PathId) (frames : List Bytes) :
    winners (frames.map (Action.send pid)) = [] := by
  induction frames with
  | nil => rfl
  | cons f rest ih => simpa using ih

namespace Election

variable {E : Type} [Engine E]

/-- No winner has been announced, or exactly one: the path nominated in the engine, with the election
over. -/
def Announced (e : Election E) (ws : List (PathId × PathHash)) : Prop :=
  ws = [] ∨ ∃ pid hash, ws = [(pid, hash)] ∧ e.phase = .nominated ∧
    Engine.nominatedPath e.engine = some pid

theorem announced_nil (e : Election E) : e.Announced [] := .inl rfl

theorem accept_cases {pid : PathId} {o : Outcome} {e e' : Election E} {actions : List Action}
    {onReady : Nat → Election E → Except Failure (List Action) × Election E}
    (h : e.accept pid o onReady = (.ok actions, e')) :
    (o.update = none ∧ actions = o.out.toList.map (Action.send pid) ∧ e' = e) ∨
    (∃ rtt more, o.update = some (.ready rtt) ∧ onReady rtt e = (.ok more, e') ∧
      actions = o.out.toList.map (Action.send pid) ++ more) ∨
    (∃ hash, o.update = some (.nominated hash) ∧ Engine.nominatedPath e.engine = some pid ∧
      actions = o.out.toList.map (Action.send pid) ++ [.nominated pid hash] ∧
      e' = { e with phase := .nominated }) := by
  unfold accept at h
  by_cases hulp : o.ulp.isSome
  · simp [hulp] at h
  simp only [hulp, Bool.false_eq_true, if_false] at h
  cases hu : o.update with
  | none =>
    simp only [hu, Prod.mk.injEq, Except.ok.injEq] at h
    exact .inl ⟨rfl, h.1.symm, h.2.symm⟩
  | some u =>
    cases u with
    | ready rtt =>
      cases hr : onReady rtt e with
      | mk result e₁ =>
        cases result with
        | error failure => simp [hu, hr, Except.map] at h
        | ok more =>
          simp only [hu, hr, Except.map, Prod.mk.injEq, Except.ok.injEq] at h
          exact .inr (.inl ⟨rtt, more, rfl, by rw [hr, h.2], h.1.symm⟩)
    | nominated hash =>
      by_cases hp : Engine.nominatedPath e.engine = some pid
      · simp only [hu, hp, ne_eq, not_true_eq_false, if_false, Prod.mk.injEq, Except.ok.injEq] at h
        exact .inr (.inr ⟨hash, rfl, hp, h.1.symm, h.2.symm⟩)
      · simp [hu, hp] at h

theorem announced_accept {pid : PathId} {o : Outcome} {e e' : Election E} {actions : List Action}
    {onReady : Nat → Election E → Except Failure (List Action) × Election E}
    (ready : ∀ rtt more e', onReady rtt e = (.ok more, e') → e'.Announced (winners more))
    (h : e.accept pid o onReady = (.ok actions, e')) : e'.Announced (winners actions) := by
  rcases accept_cases h with ⟨-, rfl, -⟩ | ⟨rtt, more, -, hr, rfl⟩ | ⟨hash, -, hp, rfl, rfl⟩
  · exact .inl (winners_map_send pid _)
  · simpa [Announced] using ready rtt more e' hr
  · exact .inr ⟨pid, hash, by simp, rfl, hp⟩

theorem announced_nominate {pid : PathId} {e e' : Election E} {actions : List Action}
    (h : e.nominate pid = (.ok actions, e')) : e'.Announced (winners actions) := by
  unfold nominate at h
  split at h
  · simp at h
  · refine announced_accept (fun rtt more e' hr => ?_) h
    obtain ⟨rfl, -⟩ : [] = more ∧ _ := by simpa using hr
    exact announced_nil e'

theorem announced_onReady {pid : PathId} {now rtt : Nat} {e e' : Election E}
    {actions : List Action} (h : e.onReady pid now rtt = (.ok actions, e')) :
    e'.Announced (winners actions) := by
  unfold onReady at h
  by_cases hn : Engine.isNominator e.engine = true
  · simp only [hn, not_true_eq_false, if_false] at h
    split at h
    · obtain ⟨rfl, -⟩ : [] = actions ∧ _ := by simpa using h
      exact announced_nil e'
    · exact announced_nominate h
  · obtain ⟨rfl, -⟩ : [] = actions ∧ _ := by simpa [hn] using h
    exact announced_nil e'

theorem announced_onDeadline {live : List PathId} {e e' : Election E} {actions : List Action}
    (h : e.onDeadline live = (.ok actions, e')) : e'.Announced (winners actions) := by
  unfold onDeadline at h
  split at h
  · obtain ⟨rfl, -⟩ : [] = actions ∧ _ := by simpa using h
    exact announced_nil e'
  · exact announced_nominate h

theorem drain_of_over {pid : PathId} {now n : Nat} {e : Election E} {s : Entropy}
    (h : e.phase ≠ .nominating) : drain pid now n e s = (.ok [], e, s) := by
  cases n <;> simp [drain, h]

theorem drain_cases {pid : PathId} {now n : Nat} {e e' : Election E} {s s' : Entropy}
    {actions : List Action} (hp : e.phase = .nominating)
    (h : drain pid now (n + 1) e s = (.ok actions, e', s')) :
    (∃ engine, Engine.processFrame pid now e.engine s = (.ok none, engine, s') ∧ actions = [] ∧
      e' = { e with engine }) ∨
    (∃ o engine s₁ first e₁ more, Engine.processFrame pid now e.engine s = (.ok (some o), engine, s₁) ∧
      Election.accept pid o (onReady pid now) { e with engine } = (.ok first, e₁) ∧
      drain pid now n e₁ s₁ = (.ok more, e', s') ∧ actions = first ++ more) := by
  rw [drain, if_neg (not_not.2 hp)] at h
  rcases hf : Engine.processFrame pid now e.engine s with ⟨fault | _ | o, engine, s₁⟩
  · simp [hf] at h
  · simp only [hf, Prod.mk.injEq, Except.ok.injEq] at h
    obtain ⟨rfl, rfl, rfl⟩ := h
    exact .inl ⟨engine, rfl, rfl, rfl⟩
  · simp only [hf] at h
    rcases ha : Election.accept pid o (onReady pid now) { e with engine } with ⟨failure | first, e₁⟩
    · simp [ha] at h
    · rcases hd : drain pid now n e₁ s₁ with ⟨failure | more, e₂, s₂⟩
      · simp [ha, hd, Except.map] at h
      · simp only [ha, hd, Except.map, Prod.mk.injEq, Except.ok.injEq] at h
        obtain ⟨rfl, rfl, rfl⟩ := h
        exact .inr ⟨o, engine, s₁, first, e₁, more, rfl, ha, hd, rfl⟩

theorem announced_drain {pid : PathId} {now n : Nat} {e e' : Election E} {s s' : Entropy}
    {actions : List Action} (h : drain pid now n e s = (.ok actions, e', s')) :
    e'.Announced (winners actions) := by
  induction n generalizing e s actions with
  | zero =>
    obtain ⟨rfl, -⟩ : [] = actions ∧ _ := by simpa [drain] using h
    exact announced_nil e'
  | succ n ih =>
    by_cases hp : e.phase = .nominating
    · rcases drain_cases hp h with ⟨engine, -, rfl, -⟩ | ⟨o, engine, s₁, first, e₁, more, -, ha, hd, rfl⟩
      · exact announced_nil e'
      · rcases announced_accept (fun _ _ _ hr => announced_onReady hr) ha with hw | hw
        · simpa [Announced, hw] using ih hd
        · -- a winner among the first actions leaves nothing for the frames after them
          obtain ⟨winner, hash, hw, ended, hn⟩ := hw
          rw [drain_of_over (by simp [ended])] at hd
          obtain ⟨rfl, rfl, -⟩ : [] = more ∧ e₁ = e' ∧ _ := by simpa using hd
          exact .inr ⟨winner, hash, by simpa using hw, ended, hn⟩
    · rw [drain_of_over hp] at h
      obtain ⟨rfl, -⟩ : [] = actions ∧ _ := by simpa using h
      exact announced_nil e'

theorem announced_onChunk {pid : PathId} {chunk : Bytes} {now : Nat} {e e' : Election E}
    {s s' : Entropy} {actions : List Action} (h : e.onChunk pid chunk now s = (.ok actions, e', s')) :
    e'.Announced (winners actions) := by
  unfold onChunk at h
  split at h
  · simp at h
  · exact announced_drain h

theorem announced_handle {event : Event} {now : Nat} {e e' : Election E} {s s' : Entropy}
    {actions : List Action} (h : e.handle event now s = (.ok actions, e', s')) :
    e'.Announced (winners actions) := by
  unfold handle at h
  by_cases hp : e.phase = .nominating
  · rw [if_neg (not_not.2 hp)] at h
    cases event with
    | frame pid chunk =>
      rcases hc : e.onChunk pid chunk now s with ⟨failure | first, e₁, s₁⟩
      · simp [hc] at h
      · simp only [hc, Prod.mk.injEq, Except.ok.injEq] at h
        obtain ⟨rfl, rfl, -⟩ := h
        exact announced_onChunk hc
    | deadline live =>
      rcases hd : e.onDeadline live with ⟨failure | first, e₁⟩
      · simp [hd] at h
      · simp only [hd, Prod.mk.injEq, Except.ok.injEq] at h
        obtain ⟨rfl, rfl, -⟩ := h
        exact announced_onDeadline hd
  · simp [hp] at h

theorem start_of_initialFrames {x x' : E} {now : Nat} {s s' : Entropy} {frames : List (PathId × Bytes)}
    (answer : Engine.initialFrames now x s = (.ok frames, x', s')) (policy : Policy) :
    (new x policy).start now s = (.ok (frames.map fun (pid, frame) => .send pid frame),
      ⟨x', .nominating, Shortlist.new policy⟩, s') := by
  simp [start, new, answer]

theorem winners_start {now : Nat} {e e' : Election E} {s s' : Entropy} {actions : List Action}
    (h : e.start now s = (.ok actions, e', s')) : winners actions = [] := by
  unfold start at h
  by_cases hp : e.phase = .initializing
  · rw [if_neg (not_not.2 hp)] at h
    split at h
    · simp at h
    · simp only [Prod.mk.injEq, Except.ok.injEq] at h
      rw [← h.1]
      simp [winners, List.filterMap_map, Function.comp_def, Action.winner?]
  · simp [hp] at h

end Election

end PathRace
