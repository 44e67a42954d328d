import PathRace.Proofs.Election.Contract
import PathRace.Proofs.Reception.Prompt
import PathRace.Proofs.Wire.Framing

/-! The loop over the frames of a path. `Loops` is the loop without a limit on its iterations. It ends
for every engine whose frames run out and whose nominations add no frames (`loops_of_pending`), so the
limit in `Election.onChunk` does not change the result (`loops_of_addChunk`). For the key exchange the
number of iterations is at most one more than the length prefixes that fit into the buffered bytes
(`loops_of_onChunk`), and the bytes that remain are the suffix behind the frames taken (`Loops.leaves`). -/

namespace PathRace

def Asked.isLook : Asked → Bool
  | processed .. => true
  | _ => false

/-- How often an engine has been asked for a frame. -/
def Watched.looks {E : Type} (w : Watched E) : Nat := w.log.countP Asked.isLook

theorem Watched.looks_note {E : Type} (w : Watched E) (a : Asked) (engine : E) :
    (w.note a engine).looks = w.looks + if a.isLook then 1 else 0 := by
  simp [looks, note, List.countP_append, List.countP_singleton]

namespace Exchange

variable {S : Suite} {x x' : Exchange S} {pid : PathId} {inbox : Reassembly} {stage : Stage}

theorem strand?_processFrame (hs : x.strand? pid = some ⟨inbox, stage⟩) {now : Nat} {s s' : Entropy}
    {answer : Except EngineFault (Option Outcome)}
    (h : Engine.processFrame pid now x s = (answer, x', s')) :
    (∃ stage', x'.strand? pid = some ⟨inbox.next.2, stage'⟩) ∧
      (answer = .ok none → inbox.next.1 = .ok none) ∧
      ∀ o, answer = .ok (some o) → ∃ body, inbox.next.1 = .ok (some body) := by
  have h : x.processFrame pid now s = (answer, x', s') := h
  unfold processFrame at h
  rw [hs] at h
  have comes := inbox.comes_next
  dsimp only at h
  generalize inbox.next = next at comes h ⊢
  cases comes with
  | nothing | refused =>
    obtain ⟨rfl, rfl, -⟩ : _ = answer ∧ x = x' ∧ _ := by simpa using h
    exact ⟨⟨stage, hs⟩, by simp, by simp⟩
  | @taken body inbox' complete fits short front =>
    dsimp only at h
    cases result : (x.device.step S pid now stage body s).result with
    | error fault =>
      rw [result] at h
      obtain ⟨rfl, rfl, -⟩ : _ = answer ∧ _ = x' ∧ _ := by simpa using h
      refine ⟨⟨.failed, ?_⟩, by simp, by simp⟩
      rw [strand?_put (x := x.record _) hs, if_pos rfl]
    | ok result' =>
      obtain ⟨stage', o⟩ := result'
      rw [result] at h
      obtain ⟨rfl, rest⟩ := Prod.mk.inj h
      have took : x.took pid ⟨inbox', stage'⟩ (x.device.step S pid now stage body s).used = x' :=
        (Prod.mk.inj rest).1
      rw [← took]
      exact ⟨⟨stage', (turned_took hs _).after⟩, by simp, fun _ _ => ⟨body, rfl⟩⟩

theorem strand?_nominate (hs : x.strand? pid = some ⟨inbox, stage⟩) :
    ∃ stage', (Engine.nominate pid x).2.strand? pid = some ⟨inbox, stage'⟩ := by
  have after : (x.call (.nominate pid)).2 = (Engine.nominate pid x).2 := rfl
  have turn := turn_nominate x pid
  rw [after] at turn
  generalize x.yields (.nominate pid) = ys, (Engine.nominate pid x).2 = x' at turn
  cases turn with
  | still => exact ⟨stage, hs⟩
  | turned deed turned =>
    cases deed with
    | nominated | exhausted =>
      obtain ⟨rfl, -⟩ := Strand.mk.inj (Option.some.inj (turned.before.symm.trans hs))
      exact ⟨_, turned.after⟩

end Exchange

/-! ### Shortlists that do not wait -/

namespace Shortlist

variable {l : Shortlist}

/-- With a window of length zero no candidate is ever held. -/
def Clear (l : Shortlist) : Prop := l.policy = .bestRtt 0 → l.candidates = []

/-- A report can only choose its own path. -/
theorem Clear.onReady (h : l.Clear) (pid : PathId) (rtt now : Nat) :
    (l.onReady pid rtt now).2.Clear ∧ ∀ chosen ∈ (l.onReady pid rtt now).1, chosen = pid := by
  unfold Shortlist.onReady
  split_ifs with requested
  · exact ⟨h, by simp⟩
  · cases policy : l.policy with
    | eager =>
      have free : l.requested = none := by simpa using requested
      simp [request, free, Clear, policy]
    | bestRtt window =>
      dsimp only
      split_ifs with none_left
      · subst none_left
        obtain ⟨chosen, emptied⟩ := choose_mem (fun _ => true)
          { l with policy := .bestRtt 0, candidates := l.candidates ++ [(pid, rtt)] }
        -- nothing has been held, so the report at hand is the only candidate
        refine ⟨fun _ => emptied, fun p hp => ?_⟩
        obtain ⟨c, hc, rfl⟩ := chosen p hp
        have alone : c ∈ [(pid, rtt)] := by simpa [h policy] using hc
        rw [List.mem_singleton.1 alone]
      · exact ⟨fun waits => absurd (Policy.bestRtt.inj waits) none_left, by simp⟩

theorem Clear.expire (live : List PathId) (l : Shortlist) : (l.expire live).2.Clear :=
  fun _ => candidates_expire live l

end Shortlist

namespace Election

section

variable {E : Type} [Engine E] {e : Election E} {pid : PathId} {now : Nat}

theorem nominate_comes (pid : PathId) (e : Election E) : ∃ phase,
    (e.nominate pid).2 = { e with engine := (Engine.nominate pid e.engine).2, phase } := by
  unfold nominate
  rcases Engine.nominate pid e.engine with ⟨fault | o, engine⟩
  · exact ⟨e.phase, rfl⟩
  · rcases accept_leaves pid o (fun _ e => (.ok [], e)) { e with engine } with he | he | ⟨_, he⟩ <;>
      exact ⟨_, he⟩

/-- An outcome leaves the engine and the shortlist alone, or is a report that goes to the shortlist,
whose choice is nominated. -/
theorem accept_comes (pid : PathId) (now : Nat) (o : Outcome) (e : Election E) : ∃ phase,
    (e.accept pid o (onReady pid now)).2 = { e with phase } ∨
    ∃ rtt, (e.accept pid o (onReady pid now)).2 =
      ⟨(e.shortlist.onReady pid rtt now).1.elim e.engine fun chosen => (Engine.nominate chosen e.engine).2,
        phase, (e.shortlist.onReady pid rtt now).2⟩ := by
  rcases accept_leaves pid o (onReady pid now) e with he | he | ⟨rtt, he⟩
  · exact ⟨e.phase, .inl he⟩
  · exact ⟨.nominated, .inl he⟩
  · rw [he]
    unfold onReady
    split_ifs
    · rcases choice : e.shortlist.onReady pid rtt now with ⟨_ | chosen, shortlist⟩
      · exact ⟨e.phase, .inr ⟨rtt, by rw [choice]; rfl⟩⟩
      · obtain ⟨phase, nominated⟩ := nominate_comes chosen { e with shortlist }
        exact ⟨phase, .inr ⟨rtt, by rw [choice]; exact nominated⟩⟩
    · exact ⟨e.phase, .inl rfl⟩

theorem clear_accept (h : e.shortlist.Clear) (pid : PathId) (now : Nat) (o : Outcome) :
    (e.accept pid o (onReady pid now)).2.shortlist.Clear := by
  obtain ⟨phase, he | ⟨rtt, he⟩⟩ := accept_comes pid now o e <;> rw [he]
  · exact h
  · exact (h.onReady pid rtt now).1

theorem clear_drain (h : e.shortlist.Clear) (pid : PathId) (now n : Nat) (s : Entropy) :
    (drain pid now n e s).2.1.shortlist.Clear := by
  induction n generalizing e s with
  | zero => exact h
  | succ n ih =>
    rw [drain]
    split_ifs
    · exact h
    · rcases Engine.processFrame pid now e.engine s with ⟨fault | _ | o, engine, s⟩
      · exact h
      · exact h
      · have accepted := clear_accept (e := { e with engine }) h pid now o
        revert accepted
        dsimp only
        rcases Election.accept pid o (onReady pid now) { e with engine } with ⟨failure | first, e⟩
        · exact id
        · exact fun accepted => ih accepted s

theorem clear_handle (h : e.shortlist.Clear) (event : Event) (now : Nat) (s : Entropy) :
    (e.handle event now s).2.1.shortlist.Clear := by
  unfold handle
  split_ifs
  · exact h
  · cases event with
    | frame pid chunk =>
      have clear : (e.onChunk pid chunk now s).2.1.shortlist.Clear := by
        unfold onChunk
        rcases Engine.addChunk pid chunk e.engine with ⟨fault | _, engine⟩
        · exact h
        · exact clear_drain (e := { e with engine }) h pid now _ s
      revert clear
      dsimp only
      rcases e.onChunk pid chunk now s with ⟨failure | actions, e, s⟩ <;> exact id
    | deadline live =>
      have clear : (e.onDeadline live).2.shortlist.Clear := by
        unfold onDeadline
        have emptied := Shortlist.Clear.expire live e.shortlist
        revert emptied
        rcases e.shortlist.expire live with ⟨_ | chosen, shortlist⟩
        · exact id
        · intro emptied
          obtain ⟨phase, nominated⟩ := nominate_comes chosen { e with shortlist }
          dsimp only
          rw [nominated]
          exact emptied
      revert clear
      dsimp only
      rcases e.onDeadline live with ⟨failure | actions, e⟩ <;> exact id

theorem clear_life (h : e.shortlist.Clear) (cs : List Call) : (life cs e).2.shortlist.Clear := by
  induction cs generalizing e with
  | nil => exact h
  | cons c cs ih =>
    refine ih ?_
    cases c with
    | start now s =>
      simp only [start]
      split_ifs
      · exact h
      · rcases Engine.initialFrames now e.engine s with ⟨fault | frames, engine, s⟩ <;> exact h
    | handle event now s => exact clear_handle h event now s

/-! ### Loops -/

/-- The loop over the frames of a path without a limit, with the number of its looks and its result. -/
inductive Loops (pid : PathId) (now : Nat) : Nat → Election E → Entropy →
    Except Failure (List Action) × Election E × Entropy → Prop
  | ended {e : Election E} {s : Entropy} (ended : e.phase ≠ .nominating) : Loops pid now 0 e s (.ok [], e, s)
  | refused {e : Election E} {s s' : Entropy} {fault : EngineFault} {engine : E}
      (nominating : e.phase = .nominating)
      (answer : Engine.processFrame pid now e.engine s = (.error fault, engine, s')) :
      Loops pid now 1 e s (.error (fault.during e.phase (some pid) "process frame"), { e with engine }, s')
  | dry {e : Election E} {s s' : Entropy} {engine : E} (nominating : e.phase = .nominating)
      (answer : Engine.processFrame pid now e.engine s = (.ok none, engine, s')) :
      Loops pid now 1 e s (.ok [], { e with engine }, s')
  | unaccepted {e e' : Election E} {s s' : Entropy} {engine : E} {o : Outcome} {failure : Failure}
      (nominating : e.phase = .nominating)
      (answer : Engine.processFrame pid now e.engine s = (.ok (some o), engine, s'))
      (accepted : Election.accept pid o (onReady pid now) { e with engine } = (.error failure, e')) :
      Loops pid now 1 e s (.error failure, e', s')
  | next {e e' : Election E} {s s' : Entropy} {engine : E} {o : Outcome} {first : List Action} {n : Nat}
      {rest : Except Failure (List Action) × Election E × Entropy} (nominating : e.phase = .nominating)
      (answer : Engine.processFrame pid now e.engine s = (.ok (some o), engine, s'))
      (accepted : Election.accept pid o (onReady pid now) { e with engine } = (.ok first, e'))
      (loops : Loops pid now n e' s' rest) :
      Loops pid now (n + 1) e s (rest.1.map (first ++ ·), rest.2)

/-- With a limit of at least `n` looks, `drain` gives the result of the loop. -/
theorem Loops.drain {n m : Nat} {s : Entropy} {r : Except Failure (List Action) × Election E × Entropy}
    (h : Loops pid now n e s r) (enough : n ≤ m) : Election.drain pid now m e s = r := by
  induction h generalizing m with
  | ended ended => exact drain_of_over ended
  | refused nominating answer | dry nominating answer =>
    obtain ⟨m, rfl⟩ : ∃ k, m = k + 1 := ⟨m - 1, by omega⟩
    rw [Election.drain, if_neg (not_not.2 nominating), answer]
  | unaccepted nominating answer accepted =>
    obtain ⟨m, rfl⟩ : ∃ k, m = k + 1 := ⟨m - 1, by omega⟩
    rw [Election.drain, if_neg (not_not.2 nominating), answer]
    dsimp only
    rw [accepted]
  | next nominating answer accepted loops ih =>
    obtain ⟨m, rfl⟩ : ∃ k, m = k + 1 := ⟨m - 1, by omega⟩
    rw [Election.drain, if_neg (not_not.2 nominating), answer]
    dsimp only
    rw [accepted]
    dsimp only
    rw [ih (by omega)]

/-! ### Engines whose frames run out -/

section

variable (steady : ∀ (chosen : PathId) (x : E),
  Engine.pending (Engine.nominate chosen x).2 pid ≤ Engine.pending x pid)

include steady

theorem pending_accept (now : Nat) (o : Outcome) (e : Election E) :
    Engine.pending (e.accept pid o (onReady pid now)).2.engine pid ≤ Engine.pending e.engine pid := by
  obtain ⟨phase, he | ⟨rtt, he⟩⟩ := accept_comes pid now o e <;> rw [he]
  cases (e.shortlist.onReady pid rtt now).1 with
  | none => exact le_rfl
  | some chosen => exact steady chosen e.engine

variable [Engine.Finite E]

/-- If every outcome lowers `Engine.pending` and no nomination raises it, the loop ends after at most
`Engine.pending + 1` looks. -/
theorem loops_of_pending (now : Nat) (e : Election E) (s : Entropy) :
    ∃ n r, n ≤ Engine.pending e.engine pid + 1 ∧ Loops pid now n e s r := by
  -- on the frames still to come: an outcome lowers their number, and what is made of it adds none
  induction size : Engine.pending e.engine pid using Nat.strong_induction_on generalizing e s with
  | _ size' ih =>
    subst size
    by_cases nominating : e.phase = .nominating
    · rcases answer : Engine.processFrame pid now e.engine s with ⟨fault | _ | o, engine, s'⟩
      · exact ⟨1, _, Nat.le_add_left .., .refused nominating answer⟩
      · exact ⟨1, _, Nat.le_add_left .., .dry nominating answer⟩
      · have fewer := Engine.Finite.pending_lt pid now e.engine s o engine s' answer
        have kept := pending_accept steady now o { e with engine }
        rcases accepted : Election.accept pid o (onReady pid now) { e with engine } with
          ⟨failure | first, e'⟩
        · exact ⟨1, _, Nat.le_add_left .., .unaccepted nominating answer accepted⟩
        · rw [accepted] at kept
          have less : Engine.pending e'.engine pid < Engine.pending e.engine pid := kept.trans_lt fewer
          obtain ⟨n, r, few, loops⟩ := ih _ less e' s' rfl
          exact ⟨n + 1, _, by omega, .next nominating answer accepted loops⟩
    · exact ⟨0, _, Nat.zero_le _, .ended nominating⟩

/-- For such an engine the limit that `onChunk` gives to `drain` has no effect: the result is that of the
loop without a limit. -/
theorem loops_of_addChunk {chunk : Bytes} {engine : E}
    (added : Engine.addChunk pid chunk e.engine = (.ok (), engine)) (now : Nat) (s : Entropy) :
    ∃ n r, n ≤ Engine.pending engine pid + 1 ∧ Loops pid now n { e with engine } s r ∧
      e.onChunk pid chunk now s = r := by
  obtain ⟨n, r, few, loops⟩ := loops_of_pending steady now { e with engine } s
  refine ⟨n, r, few, loops, ?_⟩
  unfold onChunk
  rw [added]
  exact loops.drain few

end

end

/-! ### Looks -/

section

variable {E : Type} [Engine E] {e e' : Election (Watched E)} {pid : PathId} {now : Nat}

theorem looks_accept (pid : PathId) (now : Nat) (o : Outcome) (e : Election (Watched E)) :
    (e.accept pid o (onReady pid now)).2.engine.looks = e.engine.looks := by
  obtain ⟨phase, he | ⟨rtt, he⟩⟩ := accept_comes pid now o e <;> rw [he]
  cases (e.shortlist.onReady pid rtt now).1 with
  | none => rfl
  | some chosen => exact Watched.looks_note ..

theorem Loops.looks {n : Nat} {s : Entropy}
    {r : Except Failure (List Action) × Election (Watched E) × Entropy} (h : Loops pid now n e s r) :
    r.2.1.engine.looks = e.engine.looks + n := by
  have look {w w' : Watched E} {s s' : Entropy} {answer : Except EngineFault (Option Outcome)}
      (asked : Engine.processFrame pid now w s = (answer, w', s')) : w'.looks = w.looks + 1 := by
    obtain ⟨engine, rfl⟩ := asked_of_processFrame asked
    exact Watched.looks_note ..
  induction h with
  | ended => rfl
  | refused nominating answer | dry nominating answer => exact look answer
  | @unaccepted e e' s s' engine o failure nominating answer accepted =>
    have same := looks_accept pid now o { e with engine }
    rw [accepted] at same
    exact same.trans (look answer)
  | @next e e' s s' engine o first n rest nominating answer accepted loops ih =>
    have same := looks_accept pid now o { e with engine }
    rw [accepted] at same
    dsimp only at same ⊢
    rw [ih, same, look answer]
    omega

end

/-! ### Over an exchange -/

variable {S : Suite} {e e' : Election (Watched (Exchange S))} {pid : PathId} {now : Nat}
  {inbox : Reassembly} {stage : Stage}

theorem strand?_accept (clear : e.shortlist.Clear)
    (hs : e.engine.engine.strand? pid = some ⟨inbox, stage⟩) (now : Nat) (o : Outcome) :
    ∃ stage', (e.accept pid o (onReady pid now)).2.engine.engine.strand? pid =
      some ⟨inbox, stage'⟩ := by
  obtain ⟨phase, he | ⟨rtt, he⟩⟩ := accept_comes pid now o e <;> rw [he]
  · exact ⟨stage, hs⟩
  · have own := (clear.onReady pid rtt now).2
    cases choice : (e.shortlist.onReady pid rtt now).1 with
    | none => exact ⟨stage, hs⟩
    | some chosen =>
      obtain rfl := own chosen choice
      exact Exchange.strand?_nominate hs

theorem strand?_of_look {w w' : Watched (Exchange S)} (hs : w.engine.strand? pid = some ⟨inbox, stage⟩)
    {s s' : Entropy} {answer : Except EngineFault (Option Outcome)}
    (asked : Engine.processFrame pid now w s = (answer, w', s')) :
    (∃ stage', w'.engine.strand? pid = some ⟨inbox.next.2, stage'⟩) ∧
      (answer = .ok none → inbox.next.1 = .ok none) ∧
      ∀ o, answer = .ok (some o) → ∃ body, inbox.next.1 = .ok (some body) :=
  Exchange.strand?_processFrame hs (Watched.processFrame_unwatched asked)

theorem strand?_of_accepted (clear : e.shortlist.Clear)
    (hs : e.engine.engine.strand? pid = some ⟨inbox, stage⟩) {s s' : Entropy} {o : Outcome}
    {w : Watched (Exchange S)} (answer : Engine.processFrame pid now e.engine s = (.ok (some o), w, s'))
    {result : Except Failure (List Action)}
    (accepted : Election.accept pid o (onReady pid now) { e with engine := w } = (result, e')) :
    e'.shortlist.Clear ∧ (∃ body, inbox.next.1 = .ok (some body)) ∧
      ∃ stage', e'.engine.engine.strand? pid = some ⟨inbox.next.2, stage'⟩ := by
  obtain ⟨⟨stage', hs'⟩, -, taken⟩ := strand?_of_look hs answer
  have kept := strand?_accept (e := { e with engine := w }) clear hs' now o
  have clear' := clear_accept (e := { e with engine := w }) clear pid now o
  rw [accepted] at kept clear'
  exact ⟨clear', taken o rfl, kept⟩

/-- What `n` looks at a path leave of its bytes, if the loop has result `r`. -/
structure Leaves (pid : PathId) (inbox : Reassembly) (n : Nat)
    (r : Except Failure (List Action) × Election (Watched (Exchange S)) × Entropy) : Prop where
  rest : ∃ stage, r.2.1.engine.engine.strand? pid =
    some ⟨(Reassembly.run (List.replicate n .next) inbox).2, stage⟩
  /-- The last look has found no frame. -/
  dry : ∀ actions, r.1 = .ok actions → r.2.1.phase = .nominating →
    (Reassembly.run (List.replicate n .next) inbox).2.Incomplete ∧
      n = (Reassembly.frames (Reassembly.run (List.replicate n .next) inbox).1).length + 1
  /-- Every look has taken a frame. -/
  ended : ∀ actions, r.1 = .ok actions → r.2.1.phase ≠ .nominating →
    n = (Reassembly.frames (Reassembly.run (List.replicate n .next) inbox).1).length

theorem Leaves.of_error {n : Nat}
    {r : Except Failure (List Action) × Election (Watched (Exchange S)) × Entropy} {failure : Failure}
    (rest : ∃ stage, r.2.1.engine.engine.strand? pid =
      some ⟨(Reassembly.run (List.replicate n .next) inbox).2, stage⟩)
    (failed : r.1 = .error failure) : Leaves pid inbox n r := by
  refine ⟨rest, fun actions ok => ?_, fun actions ok => ?_⟩
  · rw [failed] at ok; cases ok
  · rw [failed] at ok; cases ok

theorem Loops.leaves {n : Nat} {s : Entropy}
    {r : Except Failure (List Action) × Election (Watched (Exchange S)) × Entropy}
    (h : Loops pid now n e s r) (clear : e.shortlist.Clear)
    (hs : e.engine.engine.strand? pid = some ⟨inbox, stage⟩) : Leaves pid inbox n r := by
  induction h generalizing inbox stage with
  | ended ended =>
    exact ⟨⟨stage, hs⟩, fun _ _ nominating => absurd nominating ended, fun _ _ _ => rfl⟩
  | refused nominating answer => exact .of_error (strand?_of_look hs answer).1 rfl
  | dry nominating answer =>
    obtain ⟨kept, nothing, -⟩ := strand?_of_look hs answer
    have incomplete : inbox.Incomplete := Reassembly.next_eq_none_iff.1 (nothing rfl)
    refine ⟨kept, fun _ _ _ => ?_, fun _ _ ended => absurd nominating ended⟩
    simp [Reassembly.run, incomplete.stuck.next, nothing rfl, Reassembly.frames, incomplete]
  | unaccepted nominating answer accepted =>
    obtain ⟨-, -, kept⟩ := strand?_of_accepted clear hs answer accepted
    exact .of_error kept rfl
  | @next e e' s s' w o first n rest nominating answer accepted loops ih =>
    obtain ⟨clear', ⟨body, taken⟩, stage', hs'⟩ := strand?_of_accepted clear hs answer accepted
    obtain ⟨left, dry, ended⟩ := ih clear' hs'
    have row : Reassembly.run (List.replicate (n + 1) .next) inbox =
        (inbox.next.1 :: (Reassembly.run (List.replicate n .next) inbox.next.2).1,
          (Reassembly.run (List.replicate n .next) inbox.next.2).2) := rfl
    have one_more : (Reassembly.frames (Reassembly.run (List.replicate (n + 1) .next) inbox).1).length =
        (Reassembly.frames (Reassembly.run (List.replicate n .next) inbox.next.2).1).length + 1 := by
      simp [row, Reassembly.frames, taken]
    have succeeded {actions : List Action} (ok : rest.1.map (first ++ ·) = .ok actions) :
        ∃ more, rest.1 = .ok more := by
      cases h : rest.1 with
      | error failure => rw [h] at ok; cases ok
      | ok more => exact ⟨more, rfl⟩
    refine ⟨left, fun actions ok nominating => ?_, fun actions ok settled => ?_⟩
    · obtain ⟨more, ok⟩ := succeeded ok
      obtain ⟨incomplete, all⟩ := dry more ok nominating
      rw [one_more]
      exact ⟨incomplete, congrArg (· + 1) all⟩
    · obtain ⟨more, ok⟩ := succeeded ok
      rw [one_more, ← ended more ok settled]

/-! ### Chunks -/

theorem pending_nominate_le (pid chosen : PathId) (w : Watched (Exchange S)) :
    Engine.pending (Engine.nominate chosen w).2 pid ≤ Engine.pending w pid :=
  Nat.div_le_div_right (w.engine.buffered_nominate_le chosen pid)

/-- For a known path the loop makes at most one look more than there are length prefixes in its bytes. -/
theorem loops_of_onChunk {before : Reassembly} (hs : e.engine.engine.strand? pid = some ⟨before, stage⟩)
    (chunk : Bytes) (now : Nat) (s : Entropy) :
    ∃ n r, n ≤ (before.push chunk).buffer.length / 4 + 1 ∧
      Loops pid now n
        { e with engine := e.engine.note (.fed pid (.ok ())) (e.engine.engine.push pid chunk) } s r ∧
      e.onChunk pid chunk now s = r := by
  have known : e.engine.engine.Knows pid := by rw [Exchange.Knows, hs]; rfl
  have taken : Engine.addChunk pid chunk e.engine.engine = (.ok (), e.engine.engine.push pid chunk) :=
    known.addChunk chunk
  have added : Engine.addChunk pid chunk e.engine =
      (.ok (), e.engine.note (.fed pid (.ok ())) (e.engine.engine.push pid chunk)) := by
    rw [Watched.addChunk_eq, taken]
  obtain ⟨n, r, few, loops, looped⟩ :=
    loops_of_addChunk (fun chosen => pending_nominate_le pid chosen) added now s
  rw [← Exchange.buffered_of_strand? (Exchange.strand?_push hs chunk)]
  exact ⟨n, r, few, loops, looped⟩

theorem handle_of_onChunk {r : Except Failure (List Action) × Election (Watched (Exchange S)) × Entropy}
    {chunk : Bytes} {s : Entropy} (nominating : e.phase = .nominating)
    (h : e.onChunk pid chunk now s = r) : e.handle (.frame pid chunk) now s =
      (r.1, { r.2.1 with phase := if r.1.isOk then r.2.1.phase else .aborted }, r.2.2) := by
  unfold handle
  rw [if_neg (not_not.2 nominating)]
  dsimp only
  rw [h]
  obtain ⟨failure | actions, e', s'⟩ := r <;> rfl

/-- Nothing is processed if the election is not open or the path is not known. -/
theorem handle_of_unknown (lost : e.phase ≠ .nominating ∨ ¬ e.engine.engine.Knows pid) (chunk : Bytes)
    (now : Nat) (s : Entropy) :
    (∃ failure, (e.handle (.frame pid chunk) now s).1 = .error failure) ∧
      (e.handle (.frame pid chunk) now s).2.1.engine.looks = e.engine.looks ∧
      (e.handle (.frame pid chunk) now s).2.1.engine.engine = e.engine.engine := by
  unfold handle
  split_ifs with closed
  · exact ⟨⟨_, rfl⟩, rfl, rfl⟩
  · have unknown : e.engine.engine.strand? pid = none := by
      simpa [Exchange.Knows] using lost.resolve_left closed
    have refused : Engine.addChunk pid chunk e.engine.engine =
        (.error (.unknownPath pid), e.engine.engine) := by
      simp [Engine.addChunk, Exchange.addChunk, unknown]
    simp only [onChunk, Watched.addChunk_eq, refused]
    exact ⟨⟨_, rfl⟩, Watched.looks_note .., rfl⟩

theorem looped_of_known {before : Reassembly} (clear : e.shortlist.Clear)
    (nominating : e.phase = .nominating) (hs : e.engine.engine.strand? pid = some ⟨before, stage⟩)
    (chunk : Bytes) (now : Nat) (s : Entropy) :
    ∃ n r, n ≤ (before.push chunk).buffer.length / 4 + 1 ∧
      Loops pid now n
        { e with engine := e.engine.note (.fed pid (.ok ())) (e.engine.engine.push pid chunk) } s r ∧
      e.handle (.frame pid chunk) now s =
        (r.1, { r.2.1 with phase := if r.1.isOk then r.2.1.phase else .aborted }, r.2.2) ∧
      (e.handle (.frame pid chunk) now s).2.1.engine.looks = e.engine.looks + n ∧
      Leaves pid (before.push chunk) n r ∧
      ∀ actions, r.1 = .ok actions → Went e r.2.1 actions := by
  obtain ⟨n, r, few, loops, looped⟩ := loops_of_onChunk hs chunk now s
  have result := handle_of_onChunk nominating looped
  refine ⟨n, r, few, loops, result, ?_, loops.leaves clear (Exchange.strand?_push hs chunk),
    fun actions ok => went_onChunk nominating (looped.trans (Prod.ext ok rfl))⟩
  rw [result]
  exact loops.looks.trans (congrArg (· + n) (Watched.looks_note ..))

/-- The loop over the frames of a path ends for every input. It asks the exchange for a frame at most `b
/ 4 + 1` times, where `b` is the number of bytes buffered for the path with the chunk, and its result is
that of the loop without a limit. The bytes left in the buffer are those behind the frames taken: less
than a frame if the election goes on, everything behind the nominating frame if it is over. If the
election is not open, or the path is not known, nothing is processed. -/
theorem frame_loop_ends (x : Exchange S) (policy : Policy) (cs : List Call) (pid : PathId)
    (chunk : Bytes) (now : Nat) (s : Entropy) :
    let e := (life cs (new (Watched.new x) policy)).2
    let fed := e.engine.engine.push pid chunk
    let after := e.handle (.frame pid chunk) now s
    let e' := after.2.1
    (e.unwatched = (life cs (new x policy)).2 ∧
      e.unwatched.handle (.frame pid chunk) now s = (after.1, e'.unwatched, after.2.2)) ∧
    e'.engine.looks ≤ e.engine.looks + (fed.buffered pid / 4 + 1) ∧
    (e.phase ≠ .nominating ∨ ¬ e.engine.engine.Knows pid → (∃ failure, after.1 = .error failure) ∧
      e'.engine.looks = e.engine.looks ∧ e'.engine.engine = e.engine.engine) ∧
    (e.phase = .nominating → ∀ before stage, e.engine.engine.strand? pid = some ⟨before, stage⟩ →
      ∃ n r, Loops pid now n { e with engine := e.engine.note (.fed pid (.ok ())) fed } s r ∧
        after = (r.1, { r.2.1 with phase := if r.1.isOk then r.2.1.phase else .aborted }, r.2.2) ∧
        e'.engine.looks = e.engine.looks + n ∧
        let looked := Reassembly.run (List.replicate n .next) (before.push chunk)
        (∃ stage', e'.engine.engine.strand? pid = some ⟨looked.2, stage'⟩) ∧
        (∃ stream, Frame.encodeAll (Reassembly.frames looked.1) = .ok stream ∧
          stream ++ looked.2.buffer = before.buffer ++ chunk) ∧
        ∀ actions, after.1 = .ok actions →
          (e'.phase = .nominating ∧ looked.2.Incomplete ∧
            n = (Reassembly.frames looked.1).length + 1) ∨
          (e'.phase = .nominated ∧ (∃ first hash, actions = first ++ [.nominated pid hash]) ∧
            n = (Reassembly.frames looked.1).length)) := by
  intro e fed after e'
  have clear : e.shortlist.Clear := clear_life (e := new (Watched.new x) policy) (fun _ => rfl) cs
  have unwatched : e.unwatched = (life cs (new x policy)).2 :=
    (congrArg Prod.snd (life_unwatched cs (new (Watched.new x) policy))).symm
  refine ⟨⟨unwatched, handle_unwatched ..⟩, ?_, fun lost => handle_of_unknown lost chunk now s, ?_⟩
  · by_cases lost : e.phase ≠ .nominating ∨ ¬ e.engine.engine.Knows pid
    · exact (handle_of_unknown lost chunk now s).2.1.trans_le (Nat.le_add_right ..)
    · obtain ⟨nominating, known⟩ := not_or.1 lost
      obtain ⟨⟨before, stage⟩, hs⟩ := Option.isSome_iff_exists.1 (not_not.1 known)
      obtain ⟨n, r, few, -, -, looks, -⟩ :=
        looped_of_known clear (not_not.1 nominating) hs chunk now s
      rw [Exchange.buffered_of_strand? (Exchange.strand?_push hs chunk)]
      exact looks.trans_le (Nat.add_le_add_left few _)
  · intro nominating before stage hs
    obtain ⟨n, r, -, loops, result, looks, leaves, went⟩ :=
      looped_of_known clear nominating hs chunk now s
    have ended : e' = { r.2.1 with phase := if r.1.isOk then r.2.1.phase else .aborted } :=
      congrArg (fun answer => answer.2.1) result
    refine ⟨n, r, loops, result, looks, ?_, ?_, fun actions ok => ?_⟩
    · rw [ended]
      exact leaves.rest
    · simpa [Reassembly.pushed_looks, Reassembly.push] using
        Reassembly.conserved_run (List.replicate n .next) (before.push chunk)
    · have answer : r.1 = .ok actions := (congrArg Prod.fst result).symm.trans ok
      have phase : e'.phase = r.2.1.phase := by rw [ended, answer]; rfl
      rw [phase]
      rcases (went actions answer).closing with ⟨still, -⟩ | ⟨over', first, winner, hash, rfl, -, named⟩
      · exact .inl ⟨still, leaves.dry actions answer still⟩
      · obtain ⟨stage', here⟩ := leaves.rest
        have same : some winner = some pid := by
          rcases Exchange.nominated_of_strand? here with unnamed | ours
          · exact absurd (unnamed.symm.trans named) (by simp)
          · exact named.symm.trans ours
        obtain rfl := Option.some.inj same
        exact .inr ⟨over', ⟨first, hash, rfl⟩, leaves.ended _ answer (by simp [over'])⟩

/-- The frame that nominates the path, followed by an empty frame. -/
def plainChunk : Bytes :=
  Pair.plainFrame Pair.plainKeys.responder .responder (.auth (Pair.plainChallenge 2)) ++ [0, 0, 0, 0]

/-- An election that waits for `plainChunk`. -/
def plainCalls : List Call :=
  [.start 0 (.cycle []), .handle (.frame 7 (Pair.plainFrame
    (Suite.plain.authKey (Octets.zero 32) .responder) .responder
    (.hello (Pair.plainChallenge 1) (Pair.plainSecret 1)))) 0 (.cycle [2])]

/-- The nominating frame ends the loop, and the empty frame behind it stays in the buffer. Three bytes
are too few for a length prefix and stay as well. A chunk for an unknown path is not processed. -/
theorem frame_loop_ends_plain :
    let e := (life plainCalls (new (Watched.new (Pair.plainPair.engine .initiator)) .eager)).2
    (e.phase = .nominating ∧ e.engine.looks = 2 ∧ e.engine.engine.Knows 7 ∧ ¬ e.engine.engine.Knows 8) ∧
    ((e.handle (.frame 7 plainChunk) 0 (.cycle [])).2.1.phase = .nominated ∧
      (e.handle (.frame 7 plainChunk) 0 (.cycle [])).2.1.engine.looks = 3 ∧
      ∃ stage, (e.handle (.frame 7 plainChunk) 0 (.cycle [])).2.1.engine.engine.strand? 7 =
        some ⟨⟨[0, 0, 0, 0]⟩, stage⟩) ∧
    ((e.handle (.frame 7 [0, 0, 0]) 0 (.cycle [])).2.1.phase = .nominating ∧
      (e.handle (.frame 7 [0, 0, 0]) 0 (.cycle [])).2.1.engine.looks = 3 ∧
      ∃ stage, (e.handle (.frame 7 [0, 0, 0]) 0 (.cycle [])).2.1.engine.engine.strand? 7 =
        some ⟨⟨[0, 0, 0]⟩, stage⟩) ∧
    (∃ failure, (e.handle (.frame 8 plainChunk) 0 (.cycle [])).1 = .error failure) ∧
      (e.handle (.frame 8 plainChunk) 0 (.cycle [])).2.1.engine.looks = 2 := by
  intro e
  have same : (life plainCalls (new (Watched.new (Pair.plainPair.engine .initiator)) .eager)).2 = e := rfl
  have nominating : e.phase = .nominating := by decide +kernel
  have before : e.engine.looks = 2 := by decide +kernel
  have unknown : ¬ e.engine.engine.Knows 8 := by unfold Exchange.Knows; decide +kernel
  have empty : (e.engine.engine.strand? 7).map Strand.inbox = some .empty := by decide +kernel
  obtain ⟨⟨inbox, stage⟩, hs, rfl⟩ := Option.map_eq_some_iff.1 empty
  have known : e.engine.engine.Knows 7 := by rw [Exchange.Knows, hs]; rfl
  have looks : (e.handle (.frame 7 plainChunk) 0 (.cycle [])).2.1.engine.looks = 3 ∧
      (e.handle (.frame 7 [0, 0, 0]) 0 (.cycle [])).2.1.engine.looks = 3 := by decide +kernel
  obtain ⟨failure, unseen, -⟩ := (frame_loop_ends (Pair.plainPair.engine .initiator) .eager plainCalls 8
    plainChunk 0 (.cycle [])).2.2.1 (.inr unknown)
  refine ⟨⟨nominating, before, known, unknown⟩, ⟨by decide +kernel, looks.1, ?_⟩,
    ⟨by decide +kernel, looks.2, ?_⟩, failure, unseen.trans before⟩
  · obtain ⟨n, r, -, -, count, ⟨stage', left⟩, -⟩ := (frame_loop_ends (Pair.plainPair.engine .initiator)
      .eager plainCalls 7 plainChunk 0 (.cycle [])).2.2.2 nominating .empty stage hs
    rw [same] at count left
    obtain rfl : n = 1 := by
      rw [looks.1, before] at count
      omega
    have behind : (Reassembly.run (List.replicate 1 .next) (Reassembly.empty.push plainChunk)).2 =
        ⟨[0, 0, 0, 0]⟩ := by decide +kernel
    rw [behind] at left
    exact ⟨stage', left⟩
  · obtain ⟨n, r, -, -, count, ⟨stage', left⟩, -⟩ := (frame_loop_ends (Pair.plainPair.engine .initiator)
      .eager plainCalls 7 [0, 0, 0] 0 (.cycle [])).2.2.2 nominating .empty stage hs
    rw [same] at count left
    obtain rfl : n = 1 := by
      rw [looks.2, before] at count
      omega
    have all : (Reassembly.run (List.replicate 1 .next) (Reassembly.empty.push [0, 0, 0])).2 =
        ⟨[0, 0, 0]⟩ := by decide +kernel
    rw [all] at left
    exact ⟨stage', left⟩

end Election

end PathRace
