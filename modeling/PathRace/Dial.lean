import PathRace.Control

/-!
Connecting the configured paths of an attempt. All targets are dialled at once; those that fail
are passed over, and the attempt can go on with one path.
-/

namespace PathRace

/-- How a target answers a dial. Times are in milliseconds. -/
inductive Dial
  | answered (time : Nat)
  | refused (time : Nat) (reason : String)
  | unanswered
  deriving DecidableEq

namespace Dial

/-- A signal raised before the answer or the time limit decides the result. -/
def result (limit : Nat) (stopped : Option Nat) (d : Dial) : Except PathFault Unit :=
  let (time, result) : Nat × Except PathFault Unit := match d with
    | answered time => (time, .ok ())
    | refused time reason => (time, .error (.connectFailed reason))
    | unanswered => (limit, .error .connectTimeout)
  let (time, result) := if limit < time then (limit, .error .connectTimeout) else (time, result)
  match stopped with
  | some t => if t ≤ time then .error .aborted else result
  | none => result

end Dial

namespace World

variable {E : Type} [Engine E]

def giveUp (i : Nat) (failure : Failure) (w : World E) : Except Failure Unit × World E :=
  (.error failure, (w.letGo i).onSite i fun site =>
    { site with session := { site.session with state := .failed failure none }, held := .whole })

/-- Dials the targets of a site, of which `reached` answer. The dial fails if there is no target, if the
signal has been raised meanwhile (then the reached paths are closed with its cause), or if there is no
path at all. -/
def dial (i : Nat) (reached : List (PathId × Outlet)) (w : World E) :
    Except Failure Unit × World E :=
  match w.sites[i]? with
  | none => (.ok (), w)
  | some site =>
    if site.config.targets.isEmpty then w.giveUp i (.config "at least one path is required")
    else
      match site.session.race.signal.cause with
      | some cause =>
        let w := reached.foldl (fun w (_, outlet) =>
          (w.close outlet (.ofCause cause)).dropEnd outlet) w
        w.giveUp i (.ofCause cause)
      | none =>
        if reached.isEmpty && site.paths.isEmpty then
          (w.raise i .noPathsRemaining).2.giveUp i .noPathsRemaining
        else (.ok (), w.addPaths i reached)

end World

end PathRace
