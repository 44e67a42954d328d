import PathRace.Lane
import PathRace.Engine

/-!
The authenticated key exchange, run on every path at once.

    responder                                   initiator
      | -- hello (challenge, key) --------------> |    responder's auth key
      | <- auth-hello (response, challenge, key)  |    initiator's auth key
      | -- auth (response) ---------------------> |    responder's path key
      |              ... ready ...                |
      | <------------ nominate -----------------> |    nominator's path key

Once a path is nominated every other one is forgotten, and only payload is accepted on it.
-/

namespace PathRace

/-- The two lanes of a path after its key exchange. -/
structure Transport where
  tx : Lane
  rx : Lane
  hash : PathHash
  deriving DecidableEq

def Transport.start (role : Role) (pid : PathId) (keys : PathKeys) : Transport where
  tx := Lane.start (keys.sender role) pid (Direction.outbound role)
  rx := Lane.start (keys.sender role.peer) pid (Direction.outbound role.peer)
  hash := keys.hash

inductive Stage
  | awaitingHello
  | awaitingAuthHello (secret : Octets 32) (challenge : Challenge) (sentAt : Nat)
  | awaitingAuth (transport : Transport) (challenge : Challenge) (sentAt : Nat)
  | ready (transport : Transport)
  | nominated (transport : Transport)
  | failed
  deriving DecidableEq

def Stage.isNominated : Stage → Bool
  | nominated _ => true
  | _ => false

structure Strand where
  inbox : Reassembly
  stage : Stage
  deriving DecidableEq

def Strand.fresh : Strand := ⟨Reassembly.empty, .awaitingHello⟩

structure Device where
  role : Role
  isNominator : Bool
  ak : AuthKey
  deriving DecidableEq

namespace Device

/-- The first message in each direction has a lane of its own, under the sender's auth key. -/
def authLane (S : Suite) (d : Device) (sender : Role) (pid : PathId) : Lane :=
  Lane.start (S.authKey d.ak sender) pid (Direction.outbound sender)

/-- The clock is in milliseconds, the report in microseconds. -/
def roundTrip (sentAt now : Nat) : Nat := (now - sentAt) * 1000

structure Step where
  result : Except EngineFault (Stage × Outcome)
  used : List Sealing
  entropy : Entropy

def unexpected (m : Message) (state : String) : EngineFault := .unexpectedMessage m.name state

def onHello (S : Suite) (d : Device) (pid : PathId) (now : Nat) (ciphertext : Bytes)
    (s : Entropy) : Step :=
  match (d.authLane S d.role.peer pid).receive S ciphertext with
  | (.error fault, _) => ⟨.error fault, [], s⟩
  | (.ok (.hello challenge key), _) =>
    let (secret, s) := s.draw 32
    match S.agree secret key with
    | none => ⟨.error (.crypto .nonContributory), [], s⟩
    | some shared =>
      let (own, s) := s.draw 16
      let sent := (d.authLane S d.role pid).send S (.authHello challenge own (S.publicKey secret))
      let transport := Transport.start d.role pid (S.pathKeys d.ak shared)
      ⟨sent.frame.map fun frame => (.awaitingAuth transport own now, Outcome.frame frame),
        sent.used, s⟩
  | (.ok m, _) => ⟨.error (unexpected m "awaiting hello"), [], s⟩

def onAuthHello (S : Suite) (d : Device) (pid : PathId) (now : Nat) (secret : Octets 32)
    (own : Challenge) (sentAt : Nat) (ciphertext : Bytes) (s : Entropy) : Step :=
  match (d.authLane S d.role.peer pid).receive S ciphertext with
  | (.error fault, _) => ⟨.error fault, [], s⟩
  | (.ok (.authHello response challenge key), _) =>
    if response ≠ own then ⟨.error .challengeMismatch, [], s⟩
    else
      match S.agree secret key with
      | none => ⟨.error (.crypto .nonContributory), [], s⟩
      | some shared =>
        let transport := Transport.start d.role pid (S.pathKeys d.ak shared)
        let sent := transport.tx.send S (.auth challenge)
        ⟨sent.frame.map fun frame =>
            (.ready { transport with tx := sent.lane },
              (Outcome.frame frame).adding (.ready (roundTrip sentAt now))),
          sent.used, s⟩
  | (.ok m, _) => ⟨.error (unexpected m "awaiting auth-hello"), [], s⟩

def onAuth (S : Suite) (now : Nat) (transport : Transport) (own : Challenge) (sentAt : Nat)
    (ciphertext : Bytes) (s : Entropy) : Step :=
  match transport.rx.receive S ciphertext with
  | (.error fault, _) => ⟨.error fault, [], s⟩
  | (.ok (.auth response), rx) =>
    if response ≠ own then ⟨.error .challengeMismatch, [], s⟩
    else
      ⟨.ok (.ready { transport with rx }, Outcome.news (.ready (roundTrip sentAt now))), [], s⟩
  | (.ok m, _) => ⟨.error (unexpected m "awaiting auth"), [], s⟩

/-- A nominator refuses the nomination of its peer. -/
def onNominate (S : Suite) (d : Device) (transport : Transport) (ciphertext : Bytes)
    (s : Entropy) : Step :=
  match transport.rx.receive S ciphertext with
  | (.error fault, _) => ⟨.error fault, [], s⟩
  | (.ok m, rx) =>
    if m ≠ .nominate ∨ d.isNominator then ⟨.error (unexpected m "awaiting nominate"), [], s⟩
    else ⟨.ok (.nominated { transport with rx }, Outcome.news (.nominated transport.hash)), [], s⟩

def onUlp (S : Suite) (transport : Transport) (ciphertext : Bytes) (s : Entropy) : Step :=
  match transport.rx.receive S ciphertext with
  | (.error fault, _) => ⟨.error fault, [], s⟩
  | (.ok (.ulp data), rx) => ⟨.ok (.nominated { transport with rx }, Outcome.data data), [], s⟩
  | (.ok m, _) => ⟨.error (unexpected m "nominated"), [], s⟩

def step (S : Suite) (d : Device) (pid : PathId) (now : Nat) (stage : Stage)
    (ciphertext : Bytes) (s : Entropy) : Step :=
  match stage with
  | .awaitingHello => d.onHello S pid now ciphertext s
  | .awaitingAuthHello secret own sentAt => d.onAuthHello S pid now secret own sentAt ciphertext s
  | .awaitingAuth transport own sentAt => onAuth S now transport own sentAt ciphertext s
  | .ready transport => d.onNominate S transport ciphertext s
  | .nominated transport => onUlp S transport ciphertext s
  | .failed => ⟨.error (.unexpectedMessage "frame" "failed"), [], s⟩

end Device

structure Exchange (S : Suite) where
  device : Device
  /-- Ascending by path. -/
  strands : List (PathId × Strand)
  started : Bool
  nominated : Option PathId
  /-- Every use made of a key, the latest first. -/
  used : List Sealing

namespace Exchange

variable {S : Suite}

def new (S : Suite) (setup : Setup) : Except EngineFault (Exchange S) :=
  if setup.pids = [] then .error (.invalidSetup "no paths")
  else if ¬ setup.pids.Nodup then .error (.invalidSetup "duplicate path id")
  else .ok {
    device := ⟨setup.role, setup.isNominator, setup.ak⟩
    strands := (setup.pids.mergeSort (· ≤ ·)).map (·, Strand.fresh)
    started := false
    nominated := none
    used := [] }

def pids (x : Exchange S) : List PathId := x.strands.map Prod.fst

/-- After a nomination only the nominated path can be reached. -/
def strand? (x : Exchange S) (pid : PathId) : Option Strand :=
  if x.nominated.any (· != pid) then none else x.strands.lookup pid

def put (x : Exchange S) (pid : PathId) (strand : Strand) : Exchange S :=
  { x with strands := x.strands.map fun e => if e.1 = pid then (pid, strand) else e }

def record (x : Exchange S) (used : List Sealing) : Exchange S := { x with used := used ++ x.used }

/-- Marks `pid` as nominated and drops the other paths. -/
def settle (x : Exchange S) (pid : PathId) : Exchange S :=
  { x with nominated := some pid, strands := x.strands.filter fun e => e.1 = pid }

def greet (S : Suite) (d : Device) (now : Nat) :
    List (PathId × Strand) → Entropy →
      Except EngineFault (List (PathId × Bytes)) × List (PathId × Strand) × List Sealing × Entropy
  | [], s => (.ok [], [], [], s)
  | (pid, strand) :: rest, s =>
    let (secret, s) := s.draw 32
    let (challenge, s) := s.draw 16
    let sent := (d.authLane S d.role pid).send S (.hello challenge (S.publicKey secret))
    match sent.frame with
    | .error fault => (.error fault, (pid, strand) :: rest, sent.used, s)
    | .ok frame =>
      let (frames, rest, used, s) := greet S d now rest s
      (frames.map ((pid, frame) :: ·),
        (pid, { strand with stage := .awaitingAuthHello secret challenge now }) :: rest,
        used ++ sent.used, s)

def initialFrames (now : Nat) (x : Exchange S) (s : Entropy) :
    Except EngineFault (List (PathId × Bytes)) × Exchange S × Entropy :=
  if x.started then (.error (.invalidSetup "initial frames already created"), x, s)
  else
    let x := { x with started := true }
    match x.device.role with
    | .initiator => (.ok [], x, s)
    | .responder =>
      let (frames, strands, used, s) := greet S x.device now x.strands s
      (frames, { x with strands }.record used, s)

def addChunk (pid : PathId) (chunk : Bytes) (x : Exchange S) : Except EngineFault Unit × Exchange S :=
  match x.strand? pid with
  | none => (.error (.unknownPath pid), x)
  | some strand => (.ok (), x.put pid { strand with inbox := strand.inbox.push chunk })

/-- A refused frame is consumed, and its path has failed for good. -/
def processFrame (pid : PathId) (now : Nat) (x : Exchange S) (s : Entropy) :
    Except EngineFault (Option Outcome) × Exchange S × Entropy :=
  match x.strand? pid with
  | none => (.error (.unknownPath pid), x, s)
  | some strand =>
    match strand.inbox.next with
    | (.error fault, _) => (.error fault, x, s)
    | (.ok none, _) => (.ok none, x, s)
    | (.ok (some ciphertext), inbox) =>
      let t := x.device.step S pid now strand.stage ciphertext s
      let x := x.record t.used
      match t.result with
      | .error fault => (.error fault, x.put pid ⟨inbox, .failed⟩, t.entropy)
      | .ok (stage, outcome) =>
        let x := x.put pid ⟨inbox, stage⟩
        let x := if stage.isNominated && x.nominated.isNone then x.settle pid else x
        (.ok (some outcome), x, t.entropy)

def nominate (pid : PathId) (x : Exchange S) : Except EngineFault Outcome × Exchange S :=
  if ¬ x.device.isNominator then (.error .notNominator, x)
  else if x.nominated.isSome then (.error .alreadyNominated, x)
  else
    match x.strand? pid with
    | none => (.error (.unknownPath pid), x)
    | some ⟨inbox, .ready transport⟩ =>
      let sent := transport.tx.send S .nominate
      let x := x.record sent.used
      match sent.frame with
      | .error fault => (.error fault, x.put pid ⟨inbox, .failed⟩)
      | .ok frame =>
        let x := x.put pid ⟨inbox, .nominated { transport with tx := sent.lane }⟩
        (.ok ((Outcome.frame frame).adding (.nominated transport.hash)), x.settle pid)
    | some _ => (.error (.notReady pid), x)

/-- A payload that is too long is refused and still uses up a counter value. -/
def createFrame (data : Bytes) (x : Exchange S) : Except EngineFault Outcome × Exchange S :=
  match x.nominated with
  | none => (.error .notNominated, x)
  | some pid =>
    match x.strand? pid with
    | none => (.error (.unknownPath pid), x)
    | some ⟨inbox, .nominated transport⟩ =>
      let sent := transport.tx.send S (.ulp data)
      let x := x.put pid ⟨inbox, .nominated { transport with tx := sent.lane }⟩
      (sent.frame.map Outcome.frame, x.record sent.used)
    | some _ => (.error .notNominated, x)

def buffered (x : Exchange S) (pid : PathId) : Nat :=
  match x.strands.lookup pid with
  | none => 0
  | some strand => strand.inbox.buffer.length

instance : Engine (Exchange S) where
  initialFrames := initialFrames
  addChunk := addChunk
  processFrame := processFrame
  nominate := nominate
  createFrame := createFrame
  isNominator x := x.device.isNominator
  nominatedPath x := x.nominated
  pending x pid := x.buffered pid / Limit.lengthSize

def text (x : Exchange S) : String :=
  Render.record "RendezvousProtocol"
    [("role", x.device.role.text), ("is_nominator", toString x.device.isNominator),
      ("paths", Render.list (fun p : PathId => toString p) x.pids),
      ("nominated", Render.option (fun p : PathId => toString p) x.nominated)] true

end Exchange

end PathRace
