import PathRace.Config
import PathRace.Link.Basic

/-!
Paths racing to be nominated. Every path has a pump that takes one chunk from it at a time and
waits in line until the single slot before the consumer is free. The ownership of all paths is kept
in one table, and every close is decided there, so that a path is closed at most once.

The functions here are the atomic moves; nothing says in which order they come. A move that prunes,
nominates or sweeps stands for several steps together: the table is changed under its lock, the
lock is released, and then the paths that have left the table are closed and the signal is raised.
A state in between, where a path has left the table and is not closed yet, is not represented. No
other move can close such a path meanwhile, because a path is closed only by the move that takes it
off the table.
-/

namespace PathRace

inductive Ownership
  /-- The paths still in the race, ascending. -/
  | racing (pids : List PathId)
  /-- The winner; `held` until it is closed. -/
  | nominated (pid : PathId) (held : Bool)
  | released
  deriving DecidableEq

/-- Who takes chunks out of the slot. -/
inductive Consumer
  | racing
  /-- The winner's chunk that was in the slot at the nomination, and the halves still held. -/
  | nominated (pid : PathId) (backlog : List Bytes) (reader writer : Bool)
  | gone
  deriving DecidableEq

structure Race where
  signal : Signal
  ownership : Ownership
  /-- Paths whose pump waits for a chunk. -/
  reading : List PathId
  /-- Pumps that hold a chunk and wait for the slot, the longest waiting first. -/
  line : List (PathId × Bytes)
  slot : Option (PathId × Bytes)
  consumer : Consumer
  /-- Paths whose writer is still held. -/
  writers : List PathId
  /-- Every close so far, the earliest first. -/
  closes : List (PathId × CloseReason)
  watching : Bool
  deriving DecidableEq

namespace Race

def idle : Race := ⟨Signal.quiet, .released, [], [], none, .gone, [], [], false⟩

def raise (c : Cause) (r : Race) : Race := { r with signal := (r.signal.raise c).2 }

def closing (pids : List PathId) (reason : CloseReason) (r : Race) : Race :=
  { r with closes := r.closes ++ pids.map (·, reason) }

/-- The paths that are owned, ascending. -/
def pids (r : Race) : List PathId :=
  match r.ownership with
  | .racing pids => pids
  | .nominated pid held => if held then [pid] else []
  | .released => []

def owns (r : Race) (pid : PathId) : Bool := r.pids.contains pid

def holdsReader (r : Race) (pid : PathId) : Bool :=
  r.reading.contains pid || r.line.any (·.1 == pid)

def holdsWriter (r : Race) (pid : PathId) : Bool := r.writers.contains pid

/-- Starts a race. If a path number occurs twice, all the given paths are closed. -/
def enter (pids : List PathId) (r : Race) : Except Failure Unit × Race :=
  if pids = [] then (.error (.config "at least one path is required"), r)
  else
    match firstRepeated [] pids with
    | some pid => (.error (.config s!"duplicate path id {pid}"), r.closing pids .normal)
    | none =>
      (.ok (), { r with
        ownership := .racing (pids.mergeSort (· ≤ ·))
        reading := pids
        line := []
        slot := none
        consumer := .racing
        writers := pids
        watching := true })

/-- Removes a path that has ended or failed and closes it. Removing the last one raises
`noPathsRemaining`. The close and the signal follow once the table is unlocked; here they are one move
with the removal. -/
def prune (pid : PathId) (failed : Bool) (r : Race) : Race :=
  match r.ownership with
  | .racing pids =>
    if pids.contains pid then
      let rest := pids.erase pid
      let r := r.closing [pid] .normal
      if rest = [] then { r with ownership := .released }.raise .noPathsRemaining
      else { r with ownership := .racing rest }
    else r
  | .nominated winner held =>
    if winner = pid then
      let r :=
        if held then { r with ownership := .nominated winner false }.closing [pid] .normal else r
      if failed then r.raise (.pathFailed pid) else r
    else r
  | .released => r

/-! ### Pumps and the watcher -/

/-- Gives a reading pump what its path has for it. -/
def deliver (pid : PathId) (item : Inbound) (r : Race) : Race :=
  let r := { r with reading := r.reading.erase pid }
  match item with
  | .chunk data => { r with line := r.line ++ [(pid, data)] }
  | .ended => r.prune pid false
  | .failed _ => r.prune pid true

def consumes (r : Race) : Bool :=
  match r.consumer with
  | .racing => true
  | .nominated _ _ reader _ => reader
  | .gone => false

def leaveLine (pid : PathId) (r : Race) : Race :=
  { r with line := r.line.filter (·.1 != pid) }

/-- Whether a pump in line can move: it is first and the slot is free, or the consumer is gone. -/
def canGrant (pid : PathId) (r : Race) : Bool :=
  match r.line with
  | [] => false
  | (first, _) :: _ =>
    if r.consumes then first == pid && r.slot.isNone else r.line.any (·.1 == pid)

/-- The first pump in line puts its chunk into the slot and reads on. If its path has left the race, the
chunk is dropped and the pump ends; if the consumer is gone, `closed` is raised. -/
def grant (pid : PathId) (r : Race) : Race :=
  if !r.consumes then (r.leaveLine pid).raise .closed
  else
    match r.line with
    | [] => r
    | (first, data) :: rest =>
      if r.owns first then
        { r with line := rest, slot := some (first, data), reading := r.reading ++ [first] }
      else { r with line := rest }

def halt (pid : PathId) (r : Race) : Race :=
  { r with reading := r.reading.erase pid }.leaveLine pid

def isHalting (r : Race) : Bool := r.signal.heard.isSome

def canPump (pid : PathId) (readable : Bool) (r : Race) : Bool :=
  (r.isHalting && r.holdsReader pid) || (r.reading.contains pid && readable) || r.canGrant pid

/-- One move of a pump. `item` is what its path has for it, and matters only while it reads. -/
def pump (pid : PathId) (item : Option Inbound) (r : Race) : Race :=
  if r.isHalting then r.halt pid
  else if r.reading.contains pid then
    match item with
    | some item => r.deliver pid item
    | none => r
  else r.grant pid

def canSweep (r : Race) : Bool := r.watching && r.isHalting

/-- The watcher closes the paths that are still owned, with the reason of the cause that was raised. -/
def sweep (r : Race) : Race :=
  match r.signal.heard with
  | none => r
  | some cause =>
    { r.closing r.pids (.ofCause cause) with ownership := .released, watching := false }

/-! ### The consumer, before a nomination -/

/-- All pumps have ended. -/
def isDry (r : Race) : Bool := r.reading.isEmpty && r.line.isEmpty

def canReceive (r : Race) : Bool := r.isHalting || r.slot.isSome || r.isDry

/-- The next chunk or a failure, `none` for waiting. A chunk of a path that has left the race is
discarded. -/
def receive (r : Race) : Option (Except Failure (PathId × Bytes)) × Race :=
  match r.signal.heard with
  | some cause => (some (.error (.ofCause cause)), r)
  | none =>
    match r.slot with
    | some (pid, data) =>
      (if r.owns pid then some (.ok (pid, data)) else none, { r with slot := none })
    | none =>
      if r.isDry then
        (some (.error (.ofCause (r.signal.cause.getD .noPathsRemaining))), r)
      else (none, r)

inductive Opening
  | refused (failure : Failure)
  /-- The path is gone; the frame is dropped. -/
  | dropped
  | granted
  deriving DecidableEq

def openWrite (pid : PathId) (r : Race) : Opening × Race :=
  match r.signal.cause with
  | some cause => (.refused (.ofCause cause), r)
  | none =>
    if !r.owns pid then (.dropped, { r with writers := r.writers.erase pid })
    else if !r.holdsWriter pid then (.dropped, r)
    else (.granted, r)

/-- A failing write removes its path, as a failing read does. -/
def failWrite (pid : PathId) (r : Race) : Race :=
  { r with writers := r.writers.erase pid }.prune pid true

/-- Drops a race without a nomination, which raises `closed`. -/
def abandon (r : Race) : Race :=
  match r.consumer with
  | .racing => { r with consumer := .gone, writers := [], slot := none }.raise .closed
  | _ => r

/-- Keeps one path and closes the others. A chunk of the winner that is in the slot is kept. As in
`prune`, the closes and the signal are one move with the change of the table. -/
def nominate (pid : PathId) (r : Race) : Except Failure Unit × Race :=
  match r.ownership with
  | .racing pids =>
    let owned := pids.contains pid
    let r := r.closing (pids.erase pid) .normal
    let r := { r with ownership := if owned then .nominated pid true else .released }
    if owned && r.holdsWriter pid then
      let kept := (r.slot.toList.filter (·.1 == pid)).map Prod.snd
      (.ok (), { r with slot := none, consumer := .nominated pid kept true true, writers := [pid] })
    else (.error (.nominatedPathLost pid), (r.raise (.pathFailed pid)).abandon)
  | _ => (.error (.ofCause (r.signal.cause.getD .closed)), r.abandon)

/-! ### The consumer, after a nomination -/

def canRead (r : Race) : Bool :=
  match r.consumer with
  | .nominated _ (_ :: _) _ _ => true
  | _ => r.canReceive

/-- The winner's next chunk or its end, `none` for waiting. A chunk kept at the nomination comes first. -/
def read (r : Race) : Option (Except Failure (Option Bytes)) × Race :=
  match r.consumer with
  | .nominated pid (data :: rest) reader writer =>
    (some (.ok (some data)), { r with consumer := .nominated pid rest reader writer })
  | .nominated pid [] _ _ =>
    match r.signal.heard with
    | some cause => (some (.error (.ofCause cause)), r)
    | none =>
      match r.slot with
      | some (sender, data) =>
        let r := { r with slot := none }
        if sender = pid then (some (.ok (some data)), r)
        else
          (some (.error (.protocolViolation .nominated sender
            "frame received on a non-nominated path")), r.raise .protocolError)
      | none =>
        if r.isDry then
          (some (match r.signal.cause with
            | some cause => .error (.ofCause cause)
            | none => .ok none), r)
        else (none, r)
  | _ => (some (.error .closed), r)

def winner? (r : Race) : Option PathId :=
  match r.consumer with
  | .nominated pid .. => some pid
  | _ => none

/-- After the nomination a write checks the signal only. -/
def openWinnerWrite (r : Race) : Opening :=
  match r.signal.cause with
  | some cause => .refused (.ofCause cause)
  | none => .granted

def failWinnerWrite (pid : PathId) (fault : PathFault) (r : Race) : Failure × Race :=
  (.transport pid fault, r.raise (.pathFailed pid))

/-- Dropping the second of the two halves raises `closed`. -/
def dropReader (r : Race) : Race :=
  match r.consumer with
  | .nominated pid _ _ writer =>
    let r := { r with slot := none, consumer := .nominated pid [] false writer }
    if writer then r else r.raise .closed
  | _ => r

def dropWriter (r : Race) : Race :=
  match r.consumer with
  | .nominated pid backlog reader _ =>
    let r := { r with writers := [], consumer := .nominated pid backlog reader false }
    if reader then r else r.raise .closed
  | _ => r

def pending (r : Race) : Nat :=
  match r.consumer with
  | .nominated _ backlog _ _ => backlog.length
  | _ => 0

/-! ### Texts -/

def text (r : Race) : String :=
  Render.record "PathMultiplexer"
    [("pids", Render.list (fun p : PathId => toString p) r.pids)] false

def readerText (pid : PathId) (r : Race) : String :=
  Render.record "NominatedReader" [("pid", toString pid), ("pending", toString r.pending)] false

def writerText (pid : PathId) : String :=
  Render.record "NominatedWriter" [("pid", toString pid)] false

def winnerText (pid : PathId) (r : Race) : String :=
  Render.record "NominatedPath"
    [("reader", r.readerText pid), ("writer", writerText pid)] true

end Race

end PathRace
