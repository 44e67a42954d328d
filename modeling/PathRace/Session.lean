import PathRace.Election
import PathRace.Race

/-!
One device's part in an attempt, and in the connection that comes of it. While it is racing, a
session alternates between listening to the race and doing what its election asks; once it is
connected, payload goes through the engine that won.

As in a race, each function is one atomic move. Writes to a path happen outside: a session says
which write it has open and is told how it went.
-/

namespace PathRace

inductive Doing
  | acting (todo : List Action) (winner : Option (PathId × PathHash))
  | writing (pid : PathId) (write : Writing) (todo : List Action)
      (winner : Option (PathId × PathHash))
  | listening

inductive State (E : Type)
  | idle
  | racing (election : Election E) (doing : Doing)
  | connected (engine : E) (pid : PathId) (hash : PathHash)
  | failed (failure : Failure) (engine : Option E)

structure Session (E : Type) where
  race : Race
  state : State E

namespace Session

variable {E : Type} [Engine E]

def idle : Session E := ⟨Race.idle, .idle⟩

def raise (c : Cause) (x : Session E) : Bool × Session E :=
  ((x.race.signal.raise c).1, { x with race := x.race.raise c })

/-- The cause is raised before the race is dropped, so that the paths are closed with its reason. -/
def fail (failure : Failure) (engine : Option E) (x : Session E) : Session E :=
  ⟨(x.race.raise failure.cause).abandon, .failed failure engine⟩

/-! ### Racing -/

def perform (result : Except Failure (List Action)) (election : Election E) (x : Session E) :
    Session E :=
  match result with
  | .error failure => x.fail failure (some election.engine)
  | .ok todo => { x with state := .racing election (.acting todo none) }

def connect (make : Setup → Except EngineFault E) (config : Config) (pids : List PathId) (now : Nat)
    (x : Session E) (s : Entropy) : Session E × Entropy :=
  match x.race.enter pids with
  | (.error failure, race) => ({ x with race }.fail failure none, s)
  | (.ok (), race) =>
    let x := { x with race }
    match make (config.setup pids) with
    | .error fault => (x.fail (fault.during .initializing none "create engine") none, s)
    | .ok engine =>
      let (result, election, s) := (Election.new engine config.policy).start now s
      (x.perform result election, s)

def act (election : Election E) (todo : List Action) (winner : Option (PathId × PathHash))
    (x : Session E) : Session E :=
  match todo, winner with
  | .send pid frame :: rest, winner =>
    match x.race.openWrite pid with
    | (.refused failure, race) => { x with race }.fail failure (some election.engine)
    | (.dropped, race) => { race, state := .racing election (.acting rest winner) }
    | (.granted, race) =>
      { race, state := .racing election (.writing pid (.offered frame) rest winner) }
  | .nominated pid hash :: rest, _ =>
    { x with state := .racing election (.acting rest (some (pid, hash))) }
  | [], none => { x with state := .racing election .listening }
  | [], some (pid, hash) =>
    match x.race.nominate pid with
    | (.error failure, race) => { x with race }.fail failure (some election.engine)
    | (.ok (), race) => { race, state := .connected election.engine pid hash }

/-- A path that cannot be written to is removed from the race, and the attempt goes on. -/
def wrote (election : Election E) (pid : PathId) (progress : Progress) (todo : List Action)
    (winner : Option (PathId × PathHash)) (x : Session E) : Session E :=
  match progress with
  | .inl (.ok ()) => { x with state := .racing election (.acting todo winner) }
  | .inl (.error _) =>
    { race := x.race.failWrite pid, state := .racing election (.acting todo winner) }
  | .inr write => { x with state := .racing election (.writing pid write todo winner) }

/-- A raised signal takes precedence over an open write. -/
def interrupt (election : Election E) (x : Session E) : Session E :=
  match x.race.signal.heard with
  | none => x
  | some cause => x.fail (.ofCause cause) (some election.engine)

/-- A chunk takes precedence over the end of the nomination window. -/
def listen (election : Election E) (now : Nat) (x : Session E) (s : Entropy) :
    Session E × Entropy :=
  match x.race.receive with
  | (some (.error failure), race) => ({ x with race }.fail failure (some election.engine), s)
  | (some (.ok (pid, data)), race) =>
    let (result, election, s) := election.handle (.frame pid data) now s
    ({ x with race }.perform result election, s)
  | (none, race) =>
    let x := { x with race }
    if election.deadline.any (· ≤ now) then
      let (result, election, s) := election.handle (.deadline race.pids) now s
      (x.perform result election, s)
    else (x, s)

/-! ### Connected -/

def lose (failure : Failure) (x : Session E) : Failure × Session E :=
  (failure, { x with race := x.race.raise failure.cause })

/-- The frame of a payload, cut into pieces, or the failure. -/
def send (data : Bytes) (x : Session E) : Except Failure (List Bytes) × Session E :=
  match x.state with
  | .connected engine pid hash =>
    match x.race.signal.cause with
    | some cause => (.error (.ofCause cause), x)
    | none =>
      let (result, engine) := Engine.createFrame data engine
      let x := { x with state := .connected engine pid hash }
      match result with
      | .ok ⟨none, some frame, none⟩ => (.ok (Bytes.chunks Limit.piece frame), x)
      | .ok _ =>
        let (failure, x) := x.lose (.contractViolation .nominated
          "ULP frame creation did not yield exactly one frame")
        (.error failure, x)
      | .error fault =>
        let (failure, x) := x.lose (fault.during .nominated (some pid) "create ULP frame")
        (.error failure, x)
  | _ => (.error .closed, x)

/-- The next payload among the frames that have arrived, if there is one. -/
def take (now : Nat) (x : Session E) (s : Entropy) :
    Option (Except Failure Bytes) × Session E × Entropy :=
  match x.state with
  | .connected engine pid hash =>
    let (result, engine, s) := Engine.processFrame pid now engine s
    let x := { x with state := .connected engine pid hash }
    match result with
    | .ok none => (none, x, s)
    | .ok (some ⟨none, none, some data⟩) => (some (.ok data), x, s)
    | .ok (some _) =>
      let (failure, x) := x.lose (.contractViolation .nominated
        "frame did not yield exactly one ULP payload")
      (some (.error failure), x, s)
    | .error fault =>
      let (failure, x) := x.lose (fault.during .nominated (some pid) "process frame")
      (some (.error failure), x, s)
  | _ => (some (.error .closed), x, s)

/-- Feeds the engine the winner's next chunk. `none` is for waiting, and a success without a value for
the end of the path. -/
def feed (x : Session E) : Option (Except Failure (Option Unit)) × Session E :=
  match x.state with
  | .connected engine pid hash =>
    match x.race.read with
    | (none, race) => (none, { x with race })
    | (some (.error failure), race) => (some (.error failure), { x with race })
    | (some (.ok none), race) => (some (.ok none), { x with race })
    | (some (.ok (some data)), race) =>
      let (result, engine) := Engine.addChunk pid data engine
      let x : Session E := ⟨race, .connected engine pid hash⟩
      match result with
      | .ok () => (some (.ok (some ())), x)
      | .error fault =>
        let (failure, x) := x.lose (fault.during .nominated (some pid) "add chunk")
        (some (.error failure), x)
  | _ => (some (.error .closed), x)

def engine? (x : Session E) : Option E :=
  match x.state with
  | .racing election _ => some election.engine
  | .connected engine _ _ => some engine
  | .failed _ engine => engine
  | .idle => none

/-- The result of the attempt, once it has one. -/
def result? (x : Session E) : Option (Except Failure (PathId × PathHash)) :=
  match x.state with
  | .connected _ pid hash => some (.ok (pid, hash))
  | .failed failure _ => some (.error failure)
  | _ => none

/-! ### Texts -/

def text (x : Session E) : String :=
  match x.state with
  | .connected _ pid hash =>
    PathHash.text hash ++ " " ++ Render.record "RendezvousConnection"
      [("pid", toString pid), ("aborted", Render.option Cause.text x.race.signal.cause)] true
  | _ => ""

def halvesText (pid : PathId) : String × String :=
  (Render.record "RendezvousReader" [("pid", toString pid)] false,
    Render.record "RendezvousWriter" [("pid", toString pid)] false)

end Session

end PathRace
