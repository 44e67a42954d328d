import PathRace.Link.Probe
import PathRace.Link.Loopback
import PathRace.Link.Socket

/-!
The carriers a path can have, with one way to read, write, close and let go of an end. `canRead`
and `canWrite` say when a reader or writer would not have to wait.
-/

namespace PathRace

inductive Carrier
  | probe (p : Probe)
  | loopback (l : Loopback)
  | socket (s : Socket)

structure Link where
  pid : PathId
  carrier : Carrier

namespace Link

def canRead (e : End) (l : Link) : Bool :=
  match l.carrier with
  | .probe p => p.canRead
  | .loopback x => x.canRead e
  | .socket x => x.canRead e

def read (e : End) (l : Link) : Option Inbound × Link :=
  match l.carrier with
  | .probe p => let (i, p) := p.read; (i, { l with carrier := .probe p })
  | .loopback x => let (i, x) := x.read e; (i, { l with carrier := .loopback x })
  | .socket x => let (i, x) := x.read e; (i, { l with carrier := .socket x })

def canWrite (e : End) (now : Nat) (w : Writing) (l : Link) : Bool :=
  match l.carrier with
  | .probe p => p.canWrite
  | .loopback x => x.canWrite e
  | .socket x => x.canWrite e now w

/-- Only a socket takes a chunk before the write is over. -/
def write (e : End) (now : Nat) (w : Writing) (l : Link) : Progress × Link :=
  match l.carrier, w with
  | .probe p, .offered chunk => let (r, p) := p.write chunk; (r, { l with carrier := .probe p })
  | .loopback x, .offered chunk =>
    let (r, x) := x.write e chunk; (r, { l with carrier := .loopback x })
  | .socket x, w => let (r, x) := x.write e now w; (r, { l with carrier := .socket x })
  | _, .stalled _ => (.inr w, l)

def canSend (e : End) (now : Nat) (l : Link) : Bool :=
  match l.carrier with
  | .socket x => x.canSend e now
  | _ => false

/-- One step of the sender of a socket. The other carriers have none. -/
def send (e : End) (now : Nat) (l : Link) : Link :=
  match l.carrier with
  | .socket x => { l with carrier := .socket (x.send e now) }
  | _ => l

def close (e : End) (reason : CloseReason) (l : Link) : Link :=
  { l with carrier := match l.carrier with
    | .probe p => .probe (p.close reason)
    | .loopback x => .loopback (x.close reason)
    | .socket x => .socket (x.close e reason) }

/-- Dropping a half of a probe has no effect. -/
def dropReader (e : End) (l : Link) : Link :=
  { l with carrier := match l.carrier with
    | .probe p => .probe p
    | .loopback x => .loopback (x.dropReader e)
    | .socket x => .socket (x.dropReader e) }

def dropWriter (e : End) (l : Link) : Link :=
  { l with carrier := match l.carrier with
    | .probe p => .probe p
    | .loopback x => .loopback (x.dropWriter e)
    | .socket x => .socket (x.dropWriter e) }

def onProbe (f : Probe → Probe) (l : Link) : Link :=
  match l.carrier with
  | .probe p => { l with carrier := .probe (f p) }
  | _ => l

def closes? (l : Link) : Option (List CloseReason) :=
  match l.carrier with
  | .probe p => some p.closes
  | _ => none

def takeWritten (l : Link) : Option (List Bytes) × Link :=
  match l.carrier with
  | .probe p => (some p.written, { l with carrier := .probe { p with written := [] } })
  | _ => (none, l)

def peerDrop (l : Link) : Link :=
  match l.carrier with
  | .socket x => { l with carrier := .socket x.peerDrop }
  | _ => l

def text (pid : PathId) : String := Render.record "SinglePath" [("pid", toString pid)] true

end Link

end PathRace
