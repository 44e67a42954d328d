import PathRace.Signal

/-!
The reasons that a closed path gives to the other side, with their codes. `ofCode_code`: a code
leads back to its reason.
-/

namespace PathRace

inductive CloseReason
  | normal
  | protocolError
  | initTimeout
  | otherDeviceDisconnected
  | ulpError
  deriving DecidableEq, Repr

namespace CloseReason

def code : CloseReason → UInt16
  | normal => 1000
  | protocolError => 4000
  | initTimeout => 4003
  | otherDeviceDisconnected => 4004
  | ulpError => 4100

def message : CloseReason → String
  | normal => "normal closure"
  | protocolError => "rendezvous protocol error"
  | initTimeout => "init timeout reached"
  | otherDeviceDisconnected => "other device disconnected"
  | ulpError => "upper layer protocol error"

def ofCode (code : UInt16) : Option CloseReason :=
  match code with
  | 1000 => some normal
  | 4000 => some protocolError
  | 4003 => some initTimeout
  | 4004 => some otherDeviceDisconnected
  | 4100 => some ulpError
  | _ => none

/-- Only a protocol error has a close code of its own. -/
def ofCause : Cause → CloseReason
  | .protocolError => protocolError
  | _ => normal

theorem ofCode_code (r : CloseReason) : ofCode r.code = some r := by cases r <;> rfl

end CloseReason

instance : Inhabited CloseReason := ⟨.normal⟩

end PathRace
