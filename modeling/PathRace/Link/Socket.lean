import PathRace.Link.Basic

/-!
A path over a WebSocket, at the level of messages. A sender takes the chunks that writers have
handed over, one binary message each, and ends with one close message that carries the reason of
the first close. The reader yields binary messages up to the first that ends it.

A wide pipe holds whatever is sent; a narrow one holds less than a message, so that a message has
been sent only once the other side has received it.
-/

namespace PathRace

inductive Packet
  | binary (data : Bytes)
  | text
  | ping
  | pong
  /-- The code and the words of a close, if it has any. -/
  | close (words : Option (UInt16 × String))
  deriving DecidableEq

namespace Packet

def isIdle : Packet → Bool
  | ping | pong => true
  | _ => false

def farewell (reason : CloseReason) : Packet := close (some (reason.code, reason.message))

end Packet

inductive Sender
  | running
  /-- Closing: until when, and whether the close message is on its way. -/
  | parting (limit : Nat) (spoken : Bool)
  | done
  deriving DecidableEq

structure Station where
  backlog : Backlog
  outbox : List Bytes
  /-- The length of the message on its way through a narrow pipe. -/
  sending : Option Nat
  sender : Sender
  /-- The reason of the first close. -/
  closed : Option CloseReason
  writerHeld : Bool
  readerHeld : Bool
  /-- Whether the stream of the reader is still running. -/
  streaming : Bool
  /-- Whether the close message of the other side has arrived. -/
  heard : Bool

namespace Station

def new (marks : Watermarks) : Station :=
  ⟨Backlog.empty marks, [], none, .running, none, true, true, true, false⟩

def close (reason : CloseReason) (s : Station) : Station :=
  { s with closed := some (s.closed.getD reason) }

/-- The sender is done, and the reader has been dropped or has ended. -/
def isGone (s : Station) : Bool := s.sender == .done && !(s.readerHeld && s.streaming)

def drain (n : Nat) (s : Station) : Station := { s with backlog := s.backlog.drain (UInt64.ofNat n) }

end Station

/-- An end whose packets are sent and received one by one by hand. -/
structure Peer where
  spoke : Bool
  heard : Bool
  gone : Bool
  deriving DecidableEq

inductive Party
  | station (s : Station)
  | peer (p : Peer)

def Party.isGone : Party → Bool
  | station s => s.isGone
  | peer p => p.gone

structure Socket where
  narrow : Bool
  near : Station
  far : Party
  /-- Sent and not yet received, in either direction. -/
  toNear : List Packet
  toFar : List Packet

namespace Socket

def isNarrow (pipe : Nat) : Bool := pipe < 1024

def new (pipe : Nat) (marks : Watermarks) : Socket :=
  ⟨isNarrow pipe, Station.new marks, .station (Station.new marks), [], []⟩

def withPeer (pipe : Nat) (marks : Watermarks) : Socket :=
  ⟨isNarrow pipe, Station.new marks, .peer ⟨false, false, false⟩, [], []⟩

def station? (e : End) (x : Socket) : Option Station :=
  match e, x.far with
  | .a, _ => some x.near
  | .b, .station s => some s
  | .b, .peer _ => none

def put (e : End) (s : Station) (x : Socket) : Socket :=
  match e with
  | .a => { x with near := s }
  | .b => { x with far := .station s }

def incoming (e : End) (x : Socket) : List Packet :=
  match e with
  | .a => x.toNear
  | .b => x.toFar

def outgoing (e : End) (x : Socket) : List Packet := x.incoming e.other

def setIncoming (e : End) (l : List Packet) (x : Socket) : Socket :=
  match e with
  | .a => { x with toNear := l }
  | .b => { x with toFar := l }

def transmit (e : End) (p : Packet) (x : Socket) : Socket :=
  x.setIncoming e.other (x.outgoing e ++ [p])

def isGone (e : End) (x : Socket) : Bool :=
  match e with
  | .a => x.near.isGone
  | .b => x.far.isGone

/-! ### Reading -/

def resetFault : PathFault :=
  .webSocket "WebSocket protocol error: Connection reset without closing handshake"

def hasEnded (s : Station) : Bool := s.closed.isSome || !s.streaming

def canRead (e : End) (x : Socket) : Bool :=
  match x.station? e with
  | none => false
  | some s =>
    hasEnded s || (x.incoming e).any (!·.isIdle) || x.isGone e.other

def read (e : End) (x : Socket) : Option Inbound × Socket :=
  match x.station? e with
  | none => (none, x)
  | some s =>
    if hasEnded s then (some .ended, x)
    else
      match (x.incoming e).dropWhile (·.isIdle) with
      | .binary data :: rest => (some (.chunk data), x.setIncoming e rest)
      | .close _ :: rest =>
        (some .ended, (x.setIncoming e rest).put e { s with streaming := false, heard := true })
      | _ :: rest =>
        (some (.failed .unexpectedText), (x.setIncoming e rest).put e { s with streaming := false })
      | [] =>
        if x.isGone e.other then
          (some (.failed resetFault), (x.setIncoming e []).put e { s with streaming := false })
        else (none, x.setIncoming e [])

/-! ### Writing -/

def canWrite (e : End) (now : Nat) (w : Writing) (x : Socket) : Bool :=
  match x.station? e, w with
  | none, _ => false
  | some _, .offered _ => true
  | some s, .stalled stall => stall.isDue s.closed.isSome now

/-- The chunk is queued at once; the writer may then have to wait for the backlog to fall. -/
def write (e : End) (now : Nat) (w : Writing) (x : Socket) : Progress × Socket :=
  match x.station? e with
  | none => (.inr w, x)
  | some s =>
    match w with
    | .offered chunk =>
      if s.closed.isSome then (.failed .closed, x)
      else
        let s := { s with
          backlog := s.backlog.enqueue (UInt64.ofNat chunk.length)
          outbox := s.outbox ++ [chunk] }
        match Stall.begin now s.backlog with
        | none => (.ok, x.put e s)
        | some stall => (.inr (.stalled stall), x.put e s)
    | .stalled stall =>
      match stall.look s.closed.isSome s.backlog with
      | .inl result => (.inl result, x)
      | .inr stall => (.inr (.stalled stall), x)

/-! ### The sender -/

/-- A packet is refused after the other side's close message, or if the other end is gone. -/
def isMute (e : End) (s : Station) (x : Socket) : Bool := s.heard || x.isGone e.other

def canSend (e : End) (now : Nat) (x : Socket) : Bool :=
  match x.station? e with
  | none => false
  | some s =>
    let free := (x.outgoing e).isEmpty || x.isMute e s
    match s.sender with
    | .done => false
    | .parting limit _ => free || limit ≤ now
    | .running =>
      s.closed.isSome ||
        match s.sending with
        | some _ => free
        | none => !s.outbox.isEmpty || !s.writerHeld

/-- The sender stops sending chunks and goes on to the close message. -/
def part (e : End) (now : Nat) (s : Station) (x : Socket) : Socket :=
  let s := s.close .normal
  if x.isMute e s then x.put e { s with sender := .done }
  else if x.narrow then x.put e { s with sender := .parting (now + Limit.farewell) false }
  else
    (x.put e { s with sender := .done }).transmit e (Packet.farewell (s.closed.getD .normal))

def send (e : End) (now : Nat) (x : Socket) : Socket :=
  match x.station? e with
  | none => x
  | some s =>
    let free := (x.outgoing e).isEmpty
    match s.sender with
    | .done => x
    | .parting limit spoken =>
      if free && !spoken then
        (x.put e { s with sender := .parting limit true }).transmit e
          (Packet.farewell (s.closed.getD .normal))
      else if free || x.isMute e s then x.put e { s with sender := .done }
      else if limit ≤ now then (x.put e { s with sender := .done }).setIncoming e.other []
      else x
    | .running =>
      if s.closed.isSome then x.part e now s
      else
        match s.sending with
        | some n =>
          let s := { s.drain n with sending := none }
          if free then x.put e s else x.part e now s
        | none =>
          match s.outbox with
          | [] => if s.writerHeld then x else x.part e now s
          | chunk :: rest =>
            let s := { s with outbox := rest }
            if x.isMute e s then x.part e now (s.drain chunk.length)
            else if x.narrow then
              (x.put e { s with sending := some chunk.length }).transmit e (.binary chunk)
            else (x.put e (s.drain chunk.length)).transmit e (.binary chunk)

/-! ### Closing and letting go -/

def update (e : End) (f : Station → Station) (x : Socket) : Socket :=
  match x.station? e with
  | none => x
  | some s => x.put e (f s)

def close (e : End) (reason : CloseReason) : Socket → Socket := update e (·.close reason)

def dropReader (e : End) : Socket → Socket := update e fun s => { s with readerHeld := false }

def dropWriter (e : End) : Socket → Socket := update e fun s => { s with writerHeld := false }

/-! ### The hand-played side -/

def peer? (x : Socket) : Option Peer :=
  match x.far with
  | .peer p => some p
  | .station _ => none

/-- Whether a narrow pipe takes the packet at once. Two bytes of it are header. -/
def fits (p : Packet) : Bool :=
  match p with
  | .binary data => data.length ≤ 14
  | .close (some (_, words)) => words.utf8ByteSize ≤ 12
  | _ => true

def peerSend (p : Packet) (x : Socket) : Option Bool × Socket :=
  match x.peer? with
  | none => (none, x)
  | some peer =>
    if peer.spoke || peer.heard || peer.gone || x.near.isGone then (none, x)
    else
      let spoke := match p with
        | .close _ => true
        | _ => false
      let x := { x with far := .peer { peer with spoke } }
      (some (!x.narrow || fits p && x.toNear.isEmpty), x.transmit .b p)

inductive Received
  | packet (p : Packet)
  | failed
  deriving DecidableEq

def canPeerReceive (x : Socket) : Bool := x.toFar.any (!·.isIdle) || x.near.isGone

def peerReceive (x : Socket) : Option Received × Socket :=
  match x.peer?, x.toFar.dropWhile (·.isIdle) with
  | none, _ => (none, x)
  | some peer, p :: rest =>
    let heard := match p with
      | .close _ => true
      | _ => peer.heard
    (some (.packet p), { x with toFar := rest, far := .peer { peer with heard } })
  | some _, [] => (if x.near.isGone then some .failed else none, { x with toFar := [] })

def peerDrop (x : Socket) : Socket :=
  match x.far with
  | .peer p => { x with far := .peer { p with gone := true } }
  | .station _ => x

end Socket

end PathRace
