import PathRace.Engine
import PathRace.Shortlist

/-!
The election of a path. It owns the engine while paths are racing, turns events into actions for
the driver of the paths, and does no input or output of its own.
-/

namespace PathRace

inductive Event
  | frame (pid : PathId) (chunk : Bytes)
  /-- The nomination window is over, with these paths still alive. -/
  | deadline (live : List PathId)
  deriving DecidableEq

inductive Action
  | send (pid : PathId) (frame : Bytes)
  | nominated (pid : PathId) (hash : PathHash)
  deriving DecidableEq

structure Election (E : Type) where
  engine : E
  phase : Phase
  shortlist : Shortlist

namespace Election

variable {E : Type} [Engine E]

def new (engine : E) (policy : Policy) : Election E :=
  ⟨engine, .initializing, Shortlist.new policy⟩

def deadline (e : Election E) : Option Nat :=
  if e.phase = .nominating then e.shortlist.deadline else none

def violation (e : Election E) (reason : String) : Failure := .contractViolation e.phase reason

def start (now : Nat) (e : Election E) (s : Entropy) :
    Except Failure (List Action) × Election E × Entropy :=
  if e.phase ≠ .initializing then (.error (e.violation "handshake already started"), e, s)
  else
    match Engine.initialFrames now e.engine s with
    | (.error fault, engine, s) =>
      (.error (fault.during e.phase none "create initial frames"), { e with engine }, s)
    | (.ok frames, engine, s) =>
      (.ok (frames.map fun (pid, frame) => .send pid frame),
        { e with engine, phase := .nominating }, s)

/-- What follows from an outcome of path `pid`. News of readiness goes to `onReady`. -/
def accept (pid : PathId) (o : Outcome)
    (onReady : Nat → Election E → Except Failure (List Action) × Election E)
    (e : Election E) : Except Failure (List Action) × Election E :=
  if o.ulp.isSome then (.error (e.violation "ULP data before nomination"), e)
  else
    let sends := o.out.toList.map (Action.send pid)
    match o.update with
    | none => (.ok sends, e)
    | some (.ready rtt) =>
      let (more, e) := onReady rtt e
      (more.map (sends ++ ·), e)
    | some (.nominated hash) =>
      if Engine.nominatedPath e.engine ≠ some pid then
        (.error (e.violation "nominated notice for a path not nominated"), e)
      else (.ok (sends ++ [.nominated pid hash]), { e with phase := .nominated })

/-- Asks the engine to nominate. News of readiness in its answer is ignored, which is what `onReady`
would do with it (`nominate_of_picks`). -/
def nominate (pid : PathId) (e : Election E) : Except Failure (List Action) × Election E :=
  match Engine.nominate pid e.engine with
  | (.error fault, engine) =>
    (.error (fault.during e.phase (some pid) "nominate path"), { e with engine })
  | (.ok o, engine) => { e with engine }.accept pid o fun _ e => (.ok [], e)

def onReady (pid : PathId) (now : Nat) (rtt : Nat) (e : Election E) :
    Except Failure (List Action) × Election E :=
  if ¬ Engine.isNominator e.engine then (.ok [], e)
  else
    match e.shortlist.onReady pid rtt now with
    | (none, shortlist) => (.ok [], { e with shortlist })
    | (some chosen, shortlist) => { e with shortlist }.nominate chosen

/-- If the engine calls the path ready in its answer to the nomination, `onReady` would do nothing:
whatever the shortlist has picked is requested, and there is no choice after a request. -/
theorem nominate_of_picks {l shortlist : Shortlist} {pid : PathId}
    (picks : l.Picks (some pid, shortlist)) (e : Election E) (now : Nat) :
    { e with shortlist }.nominate pid =
      match Engine.nominate pid e.engine with
      | (.error fault, engine) =>
        (.error (fault.during e.phase (some pid) "nominate path"), { e with engine, shortlist })
      | (.ok o, engine) => { e with engine, shortlist }.accept pid o (onReady pid now) := by
  have requested : shortlist.requested.isSome = true := by rw [picks.2]; rfl
  have idle (rtt : Nat) (engine : E) : onReady pid now rtt { e with engine, shortlist } =
      (.ok [], { e with engine, shortlist }) := by
    simp [onReady, Shortlist.onReady, requested]
  unfold nominate
  rcases Engine.nominate pid e.engine with ⟨fault | o, engine⟩
  · rfl
  · simp only [accept, idle]

/-- Processes at most `n` frames of one path while the election is open. The limit that `onChunk` gives
is not reached for an engine with `Engine.Finite` whose nominations add nothing to `Engine.pending`. -/
def drain (pid : PathId) (now : Nat) :
    Nat → Election E → Entropy → Except Failure (List Action) × Election E × Entropy
  | 0, e, s => (.ok [], e, s)
  | n + 1, e, s =>
    if e.phase ≠ .nominating then (.ok [], e, s)
    else
      match Engine.processFrame pid now e.engine s with
      | (.error fault, engine, s) =>
        (.error (fault.during e.phase (some pid) "process frame"), { e with engine }, s)
      | (.ok none, engine, s) => (.ok [], { e with engine }, s)
      | (.ok (some o), engine, s) =>
        match { e with engine }.accept pid o (onReady pid now) with
        | (.error failure, e) => (.error failure, e, s)
        | (.ok actions, e) =>
          let (more, e, s) := drain pid now n e s
          (more.map (actions ++ ·), e, s)

def onChunk (pid : PathId) (chunk : Bytes) (now : Nat) (e : Election E) (s : Entropy) :
    Except Failure (List Action) × Election E × Entropy :=
  match Engine.addChunk pid chunk e.engine with
  | (.error fault, engine) =>
    (.error (fault.during e.phase (some pid) "add chunk"), { e with engine }, s)
  | (.ok (), engine) =>
    drain pid now (Engine.pending engine pid + 1) { e with engine } s

def onDeadline (live : List PathId) (e : Election E) : Except Failure (List Action) × Election E :=
  match e.shortlist.expire live with
  | (none, shortlist) => (.ok [], { e with shortlist })
  | (some chosen, shortlist) => { e with shortlist }.nominate chosen

/-- Any failure while nominating aborts the election. -/
def handle (event : Event) (now : Nat) (e : Election E) (s : Entropy) :
    Except Failure (List Action) × Election E × Entropy :=
  if e.phase ≠ .nominating then (.error (e.violation "handshake is not nominating"), e, s)
  else
    let (result, e, s) := match event with
      | .frame pid chunk => e.onChunk pid chunk now s
      | .deadline live => let (result, e) := e.onDeadline live; (result, e, s)
    match result with
    | .error failure => (.error failure, { e with phase := .aborted }, s)
    | .ok actions => (.ok actions, e, s)

def text (e : Election E) : String :=
  Render.record "Handshake" [("phase", e.phase.text), ("nominator", e.shortlist.text)] false

end Election

end PathRace
