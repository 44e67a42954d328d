import PathRace.Engine

/-!
An engine that follows a script: which outcomes a chunk yields, how a nomination goes and what a
payload becomes are all written down beforehand. It keeps the nominations it was asked for.
-/

namespace PathRace

/-- One outcome of a script. A nomination in it names the path it is for, unless it is untracked. -/
inductive Scripted
  | yields (outcome : Outcome) (tracked : Bool)
  | fails (fault : EngineFault)
  deriving DecidableEq

namespace Scripted

def plain (outcome : Outcome) : Scripted := yields outcome true

def nominates : Scripted → Bool
  | yields ⟨some (.nominated _), _, _⟩ tracked => tracked
  | _ => false

def result : Scripted → Except EngineFault Outcome
  | yields outcome _ => .ok outcome
  | fails fault => .error fault

end Scripted

/-- The outcomes that a chunk leads to. A rule without a path or a chunk matches any. -/
structure ScriptRule where
  pid : Option PathId
  chunk : Option Bytes
  fault : Option EngineFault
  outcomes : List Scripted
  deriving DecidableEq

def ScriptRule.applies (pid : PathId) (chunk : Bytes) (r : ScriptRule) : Bool :=
  r.pid.all (· == pid) && r.chunk.all (· == chunk)

structure Script where
  isNominator : Bool
  frames : Except EngineFault (List (PathId × Bytes))
  rules : List ScriptRule
  nominations : List (Option PathId × Scripted)
  creation : Option Scripted
  queue : List (PathId × Scripted)
  nominated : Option PathId
  /-- The nominations asked for, the earliest first. -/
  calls : List PathId

namespace Script

def give (pid : PathId) (r : Scripted) (s : Script) : Except EngineFault Outcome × Script :=
  (r.result, if r.nominates then { s with nominated := some pid } else s)

/-- If no rule matches, a chunk of the nominated path is payload, and any other chunk has no outcome. -/
def addChunk (pid : PathId) (chunk : Bytes) (s : Script) : Except EngineFault Unit × Script :=
  match s.rules.find? (ScriptRule.applies pid chunk) with
  | some ⟨_, _, some fault, _⟩ => (.error fault, s)
  | some ⟨_, _, none, outcomes⟩ => (.ok (), { s with queue := s.queue ++ outcomes.map (pid, ·) })
  | none =>
    let outcome := if s.nominated = some pid then Outcome.data chunk else Outcome.none
    (.ok (), { s with queue := s.queue ++ [(pid, .plain outcome)] })

def pick (pid : PathId) :
    List (PathId × Scripted) → Option (Scripted × List (PathId × Scripted))
  | [] => none
  | (sender, r) :: rest =>
    if sender = pid then some (r, rest)
    else (pick pid rest).map fun (found, rest) => (found, (sender, r) :: rest)

def processFrame (pid : PathId) (s : Script) : Except EngineFault (Option Outcome) × Script :=
  match pick pid s.queue with
  | none => (.ok none, s)
  | some (r, queue) =>
    let (result, s) := { s with queue }.give pid r
    (result.map some, s)

def nominate (pid : PathId) (s : Script) : Except EngineFault Outcome × Script :=
  let s := { s with calls := s.calls ++ [pid] }
  match s.nominations.find? fun n => n.1.all (· == pid) with
  | some (_, r) => s.give pid r
  | none => s.give pid (.plain (.news (.nominated (Octets.zero 32))))

def createFrame (data : Bytes) (s : Script) : Except EngineFault Outcome × Script :=
  match s.creation, s.nominated with
  | some r, nominated => s.give (nominated.getD 0) r
  | none, none => (.error .notNominated, s)
  | none, some _ => (.ok (Outcome.frame data), s)

instance : Engine Script where
  initialFrames _ s e := (s.frames, s, e)
  addChunk := addChunk
  processFrame pid _ s e := let (r, s) := s.processFrame pid; (r, s, e)
  nominate := nominate
  createFrame := createFrame
  isNominator := isNominator
  nominatedPath := nominated
  pending s pid := (s.queue.filter (·.1 == pid)).length

end Script

end PathRace
