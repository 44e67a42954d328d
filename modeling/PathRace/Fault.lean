import PathRace.Signal

/-!
Errors: those of one path, of the cryptography and of an engine, and the failures that end an
attempt or a connection. Each failure determines the cause it raises.
-/

namespace PathRace

inductive PathFault
  | connectFailed (why : String)
  | connectTimeout
  | webSocket (why : String)
  | unexpectedText
  | closed
  | aborted
  deriving DecidableEq, Repr

def PathFault.message : PathFault → String
  | connectFailed why => s!"connect failed: {why}"
  | connectTimeout => "connect timed out"
  | webSocket why => s!"websocket error: {why}"
  | unexpectedText => "unexpected text message"
  | closed => "path closed"
  | aborted => "path aborted"

inductive CryptoFault
  | encryptionFailed
  | decryptionFailed
  | keyDerivationFailed
  | nonContributory
  | counterExhaustion
  deriving DecidableEq, Repr

def CryptoFault.message : CryptoFault → String
  | encryptionFailed => "AEAD encryption failed"
  | decryptionFailed => "AEAD decryption failed (invalid tag or corrupted)"
  | keyDerivationFailed => "key derivation failed"
  | nonContributory => "non-contributory key exchange"
  | counterExhaustion => "nonce counter exhausted - path must terminate"

inductive EngineFault
  | malformedFrame (why : String)
  | frameTooLarge (length max : Nat)
  | unexpectedMessage (name state : String)
  | challengeMismatch
  | unknownPath (pid : PathId)
  | notReady (pid : PathId)
  | notNominator
  | alreadyNominated
  | notNominated
  | invalidSetup (why : String)
  | crypto (fault : CryptoFault)
  deriving DecidableEq, Repr

def EngineFault.message : EngineFault → String
  | malformedFrame why => s!"malformed frame: {why}"
  | frameTooLarge length max => s!"frame too large: {length} > {max}"
  | unexpectedMessage name state => s!"unexpected {name} message while {state}"
  | challengeMismatch => "challenge response mismatch"
  | unknownPath pid => s!"unknown path {pid}"
  | notReady pid => s!"path {pid} is not ready to be nominated"
  | notNominator => "not the nominator"
  | alreadyNominated => "a path has already been nominated"
  | notNominated => "no path has been nominated"
  | invalidSetup why => s!"invalid setup: {why}"
  | crypto fault => "crypto error: " ++ fault.message

inductive Failure
  | engine (phase : Phase) (pid : Option PathId) (operation : String) (source : EngineFault)
  | protocolViolation (phase : Phase) (pid : PathId) (reason : String)
  | contractViolation (phase : Phase) (reason : String)
  | transport (pid : PathId) (source : PathFault)
  | nominatedPathLost (pid : PathId)
  | noPathsRemaining
  | cancelled
  | closed
  | aborted (cause : Cause)
  | config (why : String)
  deriving DecidableEq, Repr

inductive FailureClass
  | engineRejected
  | transportFailure
  | noPathsRemaining
  | cancelled
  | configuration
  deriving DecidableEq, Repr

namespace Failure

def message : Failure → String
  | engine phase pid operation source =>
    let path := match pid with
      | some pid => s!" (pid={pid})"
      | none => ""
    "engine rejected " ++ operation ++ " while " ++ phase.short ++ path ++ ": " ++ source.message
  | protocolViolation phase pid reason =>
    "protocol violation while " ++ phase.short ++ s!" (pid={pid}): " ++ reason
  | contractViolation phase reason =>
    "engine contract violated while " ++ phase.short ++ ": " ++ reason
  | transport pid source => s!"transport failure on path {pid}: " ++ source.message
  | nominatedPathLost pid => s!"nominated path {pid} is no longer available"
  | noPathsRemaining => "all paths closed before nomination"
  | cancelled => "rendezvous cancelled"
  | closed => "rendezvous connection closed"
  | aborted cause => "rendezvous aborted: " ++ cause.message
  | config why => "configuration error: " ++ why

def source : Failure → Option String
  | engine _ _ _ source => some source.message
  | transport _ source => some source.message
  | _ => none

/-- What a caller is told that finds the signal raised. -/
def ofCause : Cause → Failure
  | .cancelled => cancelled
  | .closed => closed
  | .noPathsRemaining => noPathsRemaining
  | cause => aborted cause

def kind : Failure → FailureClass
  | engine .. | protocolViolation .. | contractViolation .. => .engineRejected
  | transport .. | nominatedPathLost _ => .transportFailure
  | noPathsRemaining => .noPathsRemaining
  | cancelled | closed => .cancelled
  | config _ => .configuration
  | aborted .protocolError => .engineRejected
  | aborted (.pathFailed _) => .transportFailure
  | aborted .noPathsRemaining => .noPathsRemaining
  | aborted .cancelled | aborted .closed => .cancelled

/-- The cause that a failure raises when it ends an attempt. -/
def cause : Failure → Cause
  | aborted cause => cause
  | transport pid _ | nominatedPathLost pid => .pathFailed pid
  | engine .. | protocolViolation .. | contractViolation .. => .protocolError
  | noPathsRemaining => .noPathsRemaining
  | cancelled | closed | config _ => .cancelled

def isRetryable (f : Failure) : Bool := f.kind != .configuration

def isSecurity (f : Failure) : Bool := f.kind == .engineRejected

end Failure

def EngineFault.during (phase : Phase) (pid : Option PathId) (operation : String)
    (source : EngineFault) : Failure :=
  .engine phase pid operation source

end PathRace
