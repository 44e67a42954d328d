import PathRace.Proofs.Election.Announcement
import PathRace.Proofs.Race.Closing
import PathRace.Session

/-! A whole attempt, from before its paths enter the race until after it has returned. Paths, engine,
clock, random bytes and raises of the signal are arbitrary. -/

namespace PathRace

/-- An attempt, with the winners its election has announced and the nominations its race has been asked
for. -/
structure Attempt (E : Type) where
  session : Session E
  announced : List (PathId × PathHash)
  nominations : List PathId

namespace Session

variable {E : Type} [Engine E]

/-- The next step of a racing session; `progress` is that of its open write. -/
def proceed (progress : Progress) (now : Nat) (s : Entropy) (x : Session E) : Session E :=
  match x.state with
  | .racing election (.acting todo winner) => x.act election todo winner
  | .racing election (.writing pid _ todo winner) =>
    if x.race.isHalting then x.interrupt election else x.wrote election pid progress todo winner
  | .racing election .listening => (x.listen election now s).1
  | _ => x

def isIdle (x : Session E) : Bool :=
  match x.state with
  | .idle => true
  | _ => false

def isListening (x : Session E) : Bool :=
  match x.state with
  | .racing _ .listening => true
  | _ => false

/-- The winners in the actions that the session has just received. -/
def announcement (x : Session E) : List (PathId × PathHash) :=
  match x.state with
  | .racing _ (.acting todo none) => winners todo
  | _ => []

/-- The path that the session is about to nominate in its race. -/
def nomination? (x : Session E) : Option PathId :=
  match x.state with
  | .racing _ (.acting [] (some (pid, _))) => some pid
  | _ => none

end Session

namespace Attempt

variable {E : Type} [Engine E]

inductive Move
  | raise (cause : Cause)
  | sweep
  | pump (pid : PathId) (item : Option Inbound)
  | connect (now : Nat) (s : Entropy)
  | proceed (progress : Progress) (now : Nat) (s : Entropy)

def onRace (m : Race.Move) (a : Attempt E) : Attempt E :=
  { a with session := { a.session with race := a.session.race.after m } }

section

variable (make : Setup → Except EngineFault E) (config : Config) (pids : List PathId)

def after (a : Attempt E) : Move → Attempt E
  | .raise cause => a.onRace (.raise cause)
  | .sweep => a.onRace .sweep
  | .pump pid item => a.onRace (.pump pid item)
  | .connect now s =>
    if a.session.isIdle then
      let session := (a.session.connect make config pids now s).1
      { a with session, announced := a.announced ++ session.announcement }
    else a
  | .proceed progress now s =>
    let session := a.session.proceed progress now s
    { session
      announced := a.announced ++ if a.session.isListening then session.announcement else []
      nominations := a.nominations ++ a.session.nomination?.toList }

def new : Attempt E := ⟨Session.idle, [], []⟩

def run (ms : List Move) (a : Attempt E) : Attempt E := ms.foldl (after make config pids) a

end

end Attempt

end PathRace
