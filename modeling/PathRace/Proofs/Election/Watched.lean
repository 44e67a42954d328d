import PathRace.Proofs.Election.Announcement

/-! An engine with a log of its calls and their answers. An election behaves the same with and without
the log (`life_unwatched`), so what is proved about logs holds for every engine. -/

namespace PathRace

/-- A call to an engine, with its answer. -/
inductive Asked
  | started (answer : Except EngineFault (List (PathId × Bytes)))
  | fed (pid : PathId) (answer : Except EngineFault Unit)
  | processed (pid : PathId) (answer : Except EngineFault (Option Outcome))
  | nominated (pid : PathId) (answer : Except EngineFault Outcome)
  | created (answer : Except EngineFault Outcome)

namespace Asked

/-- The frames of an answer, each with its path. A payload frame has no path of its own and is left out. -/
def frames : Asked → List (PathId × Bytes)
  | started (.ok frames) => frames
  | processed pid (.ok (some o)) | nominated pid (.ok o) => o.out.toList.map (pid, ·)
  | _ => []

def nomination? : Asked → Option PathId
  | nominated pid _ => some pid
  | _ => none

end Asked

/-- An engine with a log of its calls and the states it has been in. -/
structure Watched (E : Type) where
  engine : E
  log : List Asked
  seen : List E

namespace Watched

variable {E : Type} [Engine E]

def new (engine : E) : Watched E := ⟨engine, [], [engine]⟩

def note (w : Watched E) (a : Asked) (engine : E) : Watched E :=
  ⟨engine, w.log ++ [a], w.seen ++ [engine]⟩

def nominations (w : Watched E) : List PathId := w.log.filterMap Asked.nomination?

instance : Engine (Watched E) where
  initialFrames now w s :=
    let (answer, engine, s) := Engine.initialFrames now w.engine s
    (answer, w.note (.started answer) engine, s)
  addChunk pid chunk w :=
    let (answer, engine) := Engine.addChunk pid chunk w.engine
    (answer, w.note (.fed pid answer) engine)
  processFrame pid now w s :=
    let (answer, engine, s) := Engine.processFrame pid now w.engine s
    (answer, w.note (.processed pid answer) engine, s)
  nominate pid w :=
    let (answer, engine) := Engine.nominate pid w.engine
    (answer, w.note (.nominated pid answer) engine)
  createFrame data w :=
    let (answer, engine) := Engine.createFrame data w.engine
    (answer, w.note (.created answer) engine)
  isNominator w := Engine.isNominator w.engine
  nominatedPath w := Engine.nominatedPath w.engine
  pending w := Engine.pending w.engine

theorem initialFrames_eq (now : Nat) (w : Watched E) (s : Entropy) :
    Engine.initialFrames now w s = ((Engine.initialFrames now w.engine s).1,
      w.note (.started (Engine.initialFrames now w.engine s).1)
        (Engine.initialFrames now w.engine s).2.1,
      (Engine.initialFrames now w.engine s).2.2) := rfl

theorem addChunk_eq (pid : PathId) (chunk : Bytes) (w : Watched E) :
    Engine.addChunk pid chunk w = ((Engine.addChunk pid chunk w.engine).1,
      w.note (.fed pid (Engine.addChunk pid chunk w.engine).1)
        (Engine.addChunk pid chunk w.engine).2) := rfl

theorem processFrame_eq (pid : PathId) (now : Nat) (w : Watched E) (s : Entropy) :
    Engine.processFrame pid now w s = ((Engine.processFrame pid now w.engine s).1,
      w.note (.processed pid (Engine.processFrame pid now w.engine s).1)
        (Engine.processFrame pid now w.engine s).2.1,
      (Engine.processFrame pid now w.engine s).2.2) := rfl

theorem nominate_eq (pid : PathId) (w : Watched E) :
    Engine.nominate pid w = ((Engine.nominate pid w.engine).1,
      w.note (.nominated pid (Engine.nominate pid w.engine).1)
        (Engine.nominate pid w.engine).2) := rfl

theorem processFrame_unwatched {pid : PathId} {now : Nat} {w w' : Watched E} {s s' : Entropy}
    {answer : Except EngineFault (Option Outcome)}
    (h : Engine.processFrame pid now w s = (answer, w', s')) :
    Engine.processFrame pid now w.engine s = (answer, w'.engine, s') := by
  rw [processFrame_eq] at h
  obtain ⟨first, rest⟩ := Prod.mk.inj h
  obtain ⟨noted, last⟩ := Prod.mk.inj rest
  exact Prod.ext first (Prod.ext (congrArg engine noted) last)

instance [Engine.Finite E] : Engine.Finite (Watched E) where
  pending_lt pid now w s o w' s' h :=
    Engine.Finite.pending_lt pid now w.engine s o w'.engine s' (processFrame_unwatched h)

omit [Engine E] in
theorem nominations_note {a : Asked} (other : a.nomination? = none) (w : Watched E) (engine : E) :
    (w.note a engine).nominations = w.nominations := by
  simp [nominations, note, other]

omit [Engine E] in
theorem nominations_note_nominated (w : Watched E) (pid : PathId)
    (answer : Except EngineFault Outcome) (engine : E) :
    (w.note (.nominated pid answer) engine).nominations = w.nominations ++ [pid] := by
  simp [nominations, note, Asked.nomination?]

end Watched

namespace Election

variable {E : Type} [Engine E]

/-! ### Whole lives -/

inductive Call
  | start (now : Nat) (s : Entropy)
  | handle (event : Event) (now : Nat) (s : Entropy)

def call (c : Call) (e : Election E) : Except Failure (List Action) × Election E :=
  match c with
  | .start now s => let (answer, e, _) := e.start now s; (answer, e)
  | .handle event now s => let (answer, e, _) := e.handle event now s; (answer, e)

/-- The answers to a list of calls, and the election after them. -/
def life : List Call → Election E → List (Except Failure (List Action)) × Election E
  | [], e => ([], e)
  | c :: cs, e =>
    let (answer, e) := e.call c
    let (answers, e) := life cs e
    (answer :: answers, e)

/-! ### Unwatched -/

def unwatched (e : Election (Watched E)) : Election E := ⟨e.engine.engine, e.phase, e.shortlist⟩

theorem accept_unwatched (pid : PathId) (o : Outcome)
    {onReady : Nat → Election (Watched E) → Except Failure (List Action) × Election (Watched E)}
    {onReady' : Nat → Election E → Except Failure (List Action) × Election E}
    (ready : ∀ rtt e, onReady' rtt e.unwatched = ((onReady rtt e).1, (onReady rtt e).2.unwatched))
    (e : Election (Watched E)) :
    e.unwatched.accept pid o onReady' =
      ((e.accept pid o onReady).1, (e.accept pid o onReady).2.unwatched) := by
  by_cases hulp : o.ulp.isSome = true
  · simp only [accept, hulp, if_true]
    rfl
  · simp only [accept, hulp, Bool.false_eq_true, if_false]
    cases o.update with
    | none => rfl
    | some u =>
      cases u with
      | ready rtt => simp only [ready rtt e]
      | nominated hash =>
        have same : Engine.nominatedPath e.unwatched.engine = Engine.nominatedPath e.engine := rfl
        by_cases hp : Engine.nominatedPath e.engine = some pid
        · simp only [same, hp, ne_eq, not_true_eq_false, if_false]
          rfl
        · simp only [same, hp, ne_eq, not_false_eq_true, if_true]
          rfl

theorem nominate_unwatched (pid : PathId) (e : Election (Watched E)) :
    e.unwatched.nominate pid = ((e.nominate pid).1, (e.nominate pid).2.unwatched) := by
  unfold nominate
  rw [Watched.nominate_eq, show e.unwatched.engine = e.engine.engine from rfl]
  rcases Engine.nominate pid e.engine.engine with ⟨fault | o, engine⟩
  · rfl
  · exact accept_unwatched pid o (by intro rtt e; rfl) { e with engine := e.engine.note _ engine }

theorem onReady_unwatched (pid : PathId) (now rtt : Nat) (e : Election (Watched E)) :
    e.unwatched.onReady pid now rtt = ((e.onReady pid now rtt).1, (e.onReady pid now rtt).2.unwatched) := by
  unfold onReady
  have same : Engine.isNominator e.unwatched.engine = Engine.isNominator e.engine := rfl
  rw [same, show e.unwatched.shortlist = e.shortlist from rfl]
  by_cases hn : Engine.isNominator e.engine = true
  · rw [if_neg (not_not.2 hn), if_neg (not_not.2 hn)]
    rcases e.shortlist.onReady pid rtt now with ⟨_ | chosen, shortlist⟩
    · rfl
    · exact nominate_unwatched chosen { e with shortlist }
  · rw [if_pos hn, if_pos hn]

theorem drain_unwatched (pid : PathId) (now n : Nat) (e : Election (Watched E)) (s : Entropy) :
    drain pid now n e.unwatched s = ((drain pid now n e s).1, (drain pid now n e s).2.1.unwatched,
      (drain pid now n e s).2.2) := by
  induction n generalizing e s with
  | zero => rfl
  | succ n ih =>
    rw [drain, drain, Watched.processFrame_eq, show e.unwatched.engine = e.engine.engine from rfl,
      show e.unwatched.phase = e.phase from rfl, show e.unwatched.shortlist = e.shortlist from rfl]
    by_cases hp : e.phase = .nominating
    · rw [if_neg (not_not.2 hp), if_neg (not_not.2 hp)]
      rcases Engine.processFrame pid now e.engine.engine s with ⟨fault | _ | o, engine, s⟩
      · rfl
      · rfl
      · have accepted := accept_unwatched pid o (onReady_unwatched pid now)
          { e with engine := e.engine.note (.processed pid (.ok (some o))) engine }
        dsimp only [unwatched, Watched.note] at accepted ⊢
        rw [accepted]
        generalize accept (E := Watched E) pid o (onReady pid now) _ = accepted
        rcases accepted with ⟨failure | first, e⟩
        · rfl
        · have rest := ih e s
          dsimp only [unwatched] at rest ⊢
          rw [rest]
    · rw [if_pos hp, if_pos hp]

theorem onChunk_unwatched (pid : PathId) (chunk : Bytes) (now : Nat) (e : Election (Watched E))
    (s : Entropy) : e.unwatched.onChunk pid chunk now s = ((e.onChunk pid chunk now s).1,
      (e.onChunk pid chunk now s).2.1.unwatched, (e.onChunk pid chunk now s).2.2) := by
  rw [onChunk, onChunk, Watched.addChunk_eq, show e.unwatched.engine = e.engine.engine from rfl]
  rcases Engine.addChunk pid chunk e.engine.engine with ⟨fault | _, engine⟩
  · rfl
  · exact drain_unwatched pid now _ { e with engine := e.engine.note _ engine } s

theorem onDeadline_unwatched (live : List PathId) (e : Election (Watched E)) :
    e.unwatched.onDeadline live = ((e.onDeadline live).1, (e.onDeadline live).2.unwatched) := by
  rw [onDeadline, onDeadline, show e.unwatched.shortlist = e.shortlist from rfl]
  rcases e.shortlist.expire live with ⟨_ | chosen, shortlist⟩
  · rfl
  · exact nominate_unwatched chosen { e with shortlist }

theorem start_unwatched (now : Nat) (e : Election (Watched E)) (s : Entropy) :
    e.unwatched.start now s =
      ((e.start now s).1, (e.start now s).2.1.unwatched, (e.start now s).2.2) := by
  rw [start, start, Watched.initialFrames_eq, show e.unwatched.engine = e.engine.engine from rfl,
    show e.unwatched.phase = e.phase from rfl]
  by_cases hp : e.phase = .initializing
  · rw [if_neg (not_not.2 hp), if_neg (not_not.2 hp)]
    rcases Engine.initialFrames now e.engine.engine s with ⟨fault | frames, engine, s⟩
    · rfl
    · rfl
  · rw [if_pos hp, if_pos hp]
    rfl

theorem handle_unwatched (event : Event) (now : Nat) (e : Election (Watched E)) (s : Entropy) :
    e.unwatched.handle event now s =
      ((e.handle event now s).1, (e.handle event now s).2.1.unwatched, (e.handle event now s).2.2) := by
  unfold handle
  rw [show e.unwatched.phase = e.phase from rfl]
  by_cases hp : e.phase = .nominating
  · rw [if_neg (not_not.2 hp), if_neg (not_not.2 hp)]
    cases event with
    | frame pid chunk =>
      dsimp only
      rw [onChunk_unwatched]
      rcases e.onChunk pid chunk now s with ⟨failure | actions, e, s⟩
      · rfl
      · rfl
    | deadline live =>
      dsimp only
      rw [onDeadline_unwatched]
      rcases e.onDeadline live with ⟨failure | actions, e⟩
      · rfl
      · rfl
  · rw [if_pos hp, if_pos hp]
    rfl

theorem call_unwatched (c : Call) (e : Election (Watched E)) :
    e.unwatched.call c = ((e.call c).1, (e.call c).2.unwatched) := by
  cases c with
  | start now s => simp only [call, start_unwatched]
  | handle event now s => simp only [call, handle_unwatched]

theorem life_unwatched (cs : List Call) (e : Election (Watched E)) :
    life cs e.unwatched = ((life cs e).1, (life cs e).2.unwatched) := by
  induction cs generalizing e with
  | nil => rfl
  | cons c cs ih => simp only [life, call_unwatched, ih]

end Election

end PathRace
