import PathRace.Session
import PathRace.Link

/-!
Links and devices together: who holds which end of which link, what each of them can do next, and
what a move does to the links. `World.canMove` says when a task is not waiting; `World.move` is
its next atomic step. Every interleaving of tasks is a sequence of such moves.
-/

namespace PathRace

structure Outlet where
  link : Nat
  side : End
  deriving DecidableEq

/-- What the owner of an attempt still holds of it, or of its connection. -/
inductive Held
  | whole
  | halves
  | nothing
  deriving DecidableEq

structure Site (E : Type) where
  config : Config
  make : Setup → Except EngineFault E
  setup : Option Setup
  paths : List (PathId × Outlet)
  /-- The paths of the race, in the order in which they entered. -/
  attached : List (PathId × Outlet)
  session : Session E
  held : Held

/-- What a caller can wait for. -/
inductive Operation
  | read (outlet : Outlet)
  | write (outlet : Outlet) (w : Writing)
  | receive (site : Nat)
  /-- A frame for a racing path, before and after the write is open. -/
  | post (site : Nat) (pid : PathId) (frame : Bytes)
  | posting (site : Nat) (pid : PathId) (w : Writing)
  | readWinner (site : Nat)
  /-- Pieces for the winner; the write of the first may be open. -/
  | writeWinner (site : Nat) (w : Option Writing) (rest : List Bytes)
  | send (site : Nat) (data : Bytes)
  /-- Whether the engine is to be asked first. -/
  | recv (site : Nat) (ask : Bool)
  | peerSend (link : Nat) (packet : Packet)
  | peerSent (link : Nat)
  | peerReceive (link : Nat)

def Operation.site? : Operation → Option Nat
  | .receive i | .post i .. | .posting i .. | .readWinner i | .writeWinner i .. | .send i _
  | .recv i _ => some i
  | _ => none

inductive Answer
  | inbound (item : Inbound)
  | written (result : Except PathFault Unit)
  | received (result : Except Failure (PathId × Bytes))
  | done (result : Except Failure Unit)
  | payload (result : Except Failure (Option Bytes))
  | peerSent (success : Bool)
  | peerReceived (what : Socket.Received)

inductive Task
  | operation
  | session (site : Nat)
  | background (outlet : Outlet)
  | watcher (site : Nat)
  | pump (site : Nat) (pid : PathId)
  | sender (outlet : Outlet)
  deriving DecidableEq

structure World (E : Type) where
  links : List Link
  sites : List (Site E)
  /-- Writes that go on although their callers have stopped waiting. -/
  background : List (Outlet × Progress)
  operation : Option Operation
  answer : Option Answer
  now : Nat
  entropy : Entropy

namespace World

variable {E : Type} [Engine E]

/-! ### Links -/

def link? (outlet : Outlet) (w : World E) : Option Link := w.links[outlet.link]?

def socket? (i : Nat) (w : World E) : Option Socket :=
  match w.links[i]? with
  | some ⟨_, .socket x⟩ => some x
  | _ => none

def onLink (i : Nat) (f : Link → Link) (w : World E) : World E :=
  { w with links := w.links.modify i f }

def close (outlet : Outlet) (reason : CloseReason) (w : World E) : World E :=
  w.onLink outlet.link (·.close outlet.side reason)

def dropReader (outlet : Outlet) (w : World E) : World E :=
  w.onLink outlet.link (·.dropReader outlet.side)

def dropWriter (outlet : Outlet) (w : World E) : World E :=
  w.onLink outlet.link (·.dropWriter outlet.side)

def dropEnd (outlet : Outlet) (w : World E) : World E := (w.dropReader outlet).dropWriter outlet

def canRead (outlet : Outlet) (w : World E) : Bool := (w.link? outlet).any (·.canRead outlet.side)

def canWrite (outlet : Outlet) (write : Writing) (w : World E) : Bool :=
  (w.link? outlet).any (·.canWrite outlet.side w.now write)

def read (outlet : Outlet) (w : World E) : Option Inbound × World E :=
  match w.link? outlet with
  | none => (none, w)
  | some link =>
    let (item, link) := link.read outlet.side
    (item, w.onLink outlet.link fun _ => link)

def write (outlet : Outlet) (write : Writing) (w : World E) : Progress × World E :=
  match w.link? outlet with
  | none => (.inr write, w)
  | some link =>
    let (progress, link) := link.write outlet.side w.now write
    (progress, w.onLink outlet.link fun _ => link)

/-! ### Sites -/

def onSite (i : Nat) (f : Site E → Site E) (w : World E) : World E :=
  { w with sites := w.sites.modify i f }

def race? (i : Nat) (w : World E) : Option Race := w.sites[i]?.map (·.session.race)

/-- Carries out on the links what a race has closed and released. -/
def carryOut (attached : List (PathId × Outlet)) (before after : Race) (w : World E) : World E :=
  let w := (after.closes.drop before.closes.length).foldl (fun w (pid, reason) =>
    match attached.lookup pid with
    | some outlet => w.close outlet reason
    | none => w) w
  attached.foldl (fun w (pid, outlet) =>
    let w := if before.holdsReader pid && !after.holdsReader pid then w.dropReader outlet else w
    if before.holdsWriter pid && !after.holdsWriter pid then w.dropWriter outlet else w) w

def setSession (i : Nat) (session : Session E) (w : World E) : World E :=
  match w.sites[i]? with
  | none => w
  | some site =>
    (w.onSite i fun site => { site with session }).carryOut site.attached site.session.race
      session.race

def setRace (i : Nat) (race : Race) (w : World E) : World E :=
  match w.sites[i]? with
  | none => w
  | some site => w.setSession i { site.session with race }

def raise (i : Nat) (cause : Cause) (w : World E) : Bool × World E :=
  match w.sites[i]? with
  | none => (false, w)
  | some site =>
    let (first, session) := site.session.raise cause
    (first, w.setSession i session)

def turnAway (paths : List (PathId × Outlet)) (w : World E) : World E :=
  paths.foldl (fun w (_, outlet) => (w.close outlet .normal).dropEnd outlet) w

def enter (i : Nat) (paths : List (PathId × Outlet)) (w : World E) :
    Except Failure Unit × World E :=
  match w.sites[i]? with
  | none => (.ok (), w)
  | some site =>
    match site.session.race.enter (paths.map Prod.fst) with
    | (.error failure, race) =>
      let w := w.onSite i fun site => { site with session := { site.session with race } }
      (.error failure, w.turnAway paths)
    | (.ok (), race) =>
      (.ok (), w.onSite i fun site =>
        { site with attached := paths, session := { site.session with race } })

def connect (i : Nat) (w : World E) : World E :=
  match w.sites[i]? with
  | none => w
  | some site =>
    let pids := site.paths.map Prod.fst
    let (session, entropy) := site.session.connect site.make site.config pids w.now w.entropy
    let w := { w with entropy }
    match (site.session.race.enter pids).1 with
    | .error _ =>
      (w.onSite i fun site => { site with paths := [], session }).turnAway site.paths
    | .ok () =>
      (w.onSite i fun site =>
        { site with paths := [], attached := site.paths, setup := some (site.config.setup pids),
                    session }).carryOut site.paths
        (site.session.race.enter pids).2 session.race

/-! ### Tasks -/

def outletOf (i : Nat) (pid : PathId) (w : World E) : Option Outlet :=
  w.sites[i]?.bind (·.attached.lookup pid)

/-- A write can go on when its path lets it, or when the signal has been raised. -/
def canGoOn (i : Nat) (pid : PathId) (write : Writing) (w : World E) : Bool :=
  (w.race? i).any (·.isHalting) || (w.outletOf i pid).any (w.canWrite · write)

def canMoveSession (i : Nat) (w : World E) : Bool :=
  match w.sites[i]? with
  | none => false
  | some site =>
    match site.session.state with
    | .racing _ (.acting ..) => true
    | .racing _ (.writing pid write _ _) => w.canGoOn i pid write
    | .racing election .listening =>
      site.session.race.canReceive || election.deadline.any (· ≤ w.now)
    | _ => false

def canMoveOperation (w : World E) : Bool :=
  match w.operation with
  | none => false
  | some (.read outlet) => w.canRead outlet
  | some (.write outlet write) => w.canWrite outlet write
  | some (.receive i) => (w.race? i).any (·.canReceive)
  | some (.post ..) => true
  | some (.posting i pid write) => w.canGoOn i pid write
  | some (.readWinner i) => (w.race? i).any (·.canRead)
  | some (.writeWinner _ none _) => true
  | some (.writeWinner i (some write) _) =>
    ((w.race? i).bind (·.winner?)).any (w.canGoOn i · write)
  | some (.send ..) => true
  | some (.recv i ask) => ask || (w.race? i).any (·.canRead)
  | some (.peerSend ..) => true
  | some (.peerSent i) => (w.socket? i).any (·.toNear.isEmpty)
  | some (.peerReceive i) => (w.socket? i).any (·.canPeerReceive)

def canMove (t : Task) (w : World E) : Bool :=
  match t with
  | .operation => w.canMoveOperation
  | .session i => w.canMoveSession i
  | .background outlet =>
    match w.background.lookup outlet with
    | some (.inr write) => w.canWrite outlet write
    | _ => false
  | .watcher i => (w.race? i).any (·.canSweep)
  | .pump i pid =>
    (w.race? i).any fun race => race.canPump pid ((w.outletOf i pid).any w.canRead)
  | .sender outlet => (w.link? outlet).any (·.canSend outlet.side w.now)

def moveSession (i : Nat) (w : World E) : World E :=
  match w.sites[i]? with
  | none => w
  | some site =>
    let session := site.session
    match session.state with
    | .racing election (.acting todo winner) => w.setSession i (session.act election todo winner)
    | .racing election (.writing pid write todo winner) =>
      if session.race.isHalting then w.setSession i (session.interrupt election)
      else
        match w.outletOf i pid with
        | none => w
        | some outlet =>
          let (progress, w) := w.write outlet write
          w.setSession i (session.wrote election pid progress todo winner)
    | .racing election .listening =>
      let (session, entropy) := session.listen election w.now w.entropy
      { w with entropy }.setSession i session
    | _ => w

def movePump (i : Nat) (pid : PathId) (w : World E) : World E :=
  match w.race? i, w.outletOf i pid with
  | some race, some outlet =>
    if !race.isHalting && race.reading.contains pid then
      let (item, w) := w.read outlet
      w.setRace i (race.pump pid item)
    else w.setRace i (race.pump pid none)
  | _, _ => w

def finish (answer : Answer) (w : World E) : World E :=
  { w with operation := none, answer := some answer }

def goOn (operation : Operation) (w : World E) : World E := { w with operation := some operation }

def continueWrite (i : Nat) (pid : PathId) (write : Writing) (w : World E) :
    Except Failure Progress × World E :=
  match (w.race? i).bind (·.signal.heard), w.outletOf i pid with
  | some cause, _ => (.error (.ofCause cause), w)
  | none, some outlet => let (progress, w) := w.write outlet write; (.ok progress, w)
  | none, none => (.ok (.inr write), w)

def movePosting (i : Nat) (pid : PathId) (write : Writing) (race : Race) (w : World E) : World E :=
  match w.continueWrite i pid write with
  | (.error failure, w) => w.finish (.done (.error failure))
  | (.ok (.inl (.ok ())), w) => w.finish (.done (.ok ()))
  | (.ok (.inl (.error _)), w) => (w.setRace i (race.failWrite pid)).finish (.done (.ok ()))
  | (.ok (.inr write), w) => w.goOn (.posting i pid write)

def moveWriteWinner (i : Nat) (write : Option Writing) (rest : List Bytes) (race : Race)
    (w : World E) : World E :=
  match race.winner?, write, rest with
  | none, _, _ => w.finish (.done (.error .closed))
  | some _, none, [] => w.finish (.done (.ok ()))
  | some _, none, piece :: rest =>
    match race.openWinnerWrite with
    | .refused failure => w.finish (.done (.error failure))
    | _ => w.goOn (.writeWinner i (some (.offered piece)) rest)
  | some pid, some write, rest =>
    match w.continueWrite i pid write with
    | (.error failure, w) => w.finish (.done (.error failure))
    | (.ok (.inl (.ok ())), w) => w.goOn (.writeWinner i none rest)
    | (.ok (.inl (.error fault)), w) =>
      let (failure, race) := race.failWinnerWrite pid fault
      (w.setRace i race).finish (.done (.error failure))
    | (.ok (.inr write), w) => w.goOn (.writeWinner i (some write) rest)

def moveRecv (i : Nat) (ask : Bool) (session : Session E) (w : World E) : World E :=
  if ask then
    let (result, session, entropy) := session.take w.now w.entropy
    let w := { w with entropy }.setSession i session
    match result with
    | none => w.goOn (.recv i false)
    | some result => w.finish (.payload (result.map some))
  else
    let (result, session) := session.feed
    let w := w.setSession i session
    match result with
    | none => w
    | some (.ok (some ())) => w.goOn (.recv i true)
    | some (.ok none) => w.finish (.payload (.ok none))
    | some (.error failure) => w.finish (.payload (.error failure))

def setSocket (i : Nat) (x : Socket) (w : World E) : World E :=
  w.onLink i fun l => { l with carrier := .socket x }

def moveSite (operation : Operation) (session : Session E) (w : World E) : World E :=
  match operation with
  | .receive i =>
    let (result, race) := session.race.receive
    let w := w.setRace i race
    match result with
    | none => w
    | some result => w.finish (.received result)
  | .post i pid frame =>
    let (opening, race) := session.race.openWrite pid
    let w := w.setRace i race
    match opening with
    | .refused failure => w.finish (.done (.error failure))
    | .dropped => w.finish (.done (.ok ()))
    | .granted => w.goOn (.posting i pid (.offered frame))
  | .posting i pid write => w.movePosting i pid write session.race
  | .readWinner i =>
    let (result, race) := session.race.read
    let w := w.setRace i race
    match result with
    | none => w
    | some result => w.finish (.payload result)
  | .writeWinner i write rest => w.moveWriteWinner i write rest session.race
  | .send i data =>
    let (result, session) := session.send data
    let w := w.setSession i session
    match result with
    | .error failure => w.finish (.done (.error failure))
    | .ok pieces => w.goOn (.writeWinner i none pieces)
  | .recv i ask => w.moveRecv i ask session
  | _ => w

def moveOperation (w : World E) : World E :=
  match w.operation with
  | none => w
  | some (.read outlet) =>
    let (item, w) := w.read outlet
    match item with
    | none => w
    | some item => w.finish (.inbound item)
  | some (.write outlet write) =>
    let (progress, w) := w.write outlet write
    match progress with
    | .inl result => w.finish (.written result)
    | .inr write => w.goOn (.write outlet write)
  | some (.peerSend i packet) =>
    match (w.socket? i).map (·.peerSend packet) with
    | some (some true, x) => (w.setSocket i x).finish (.peerSent true)
    | some (some false, x) => (w.setSocket i x).goOn (.peerSent i)
    | _ => w.finish (.peerSent false)
  | some (.peerSent _) => w.finish (.peerSent true)
  | some (.peerReceive i) =>
    match (w.socket? i).map (·.peerReceive) with
    | some (some what, x) => (w.setSocket i x).finish (.peerReceived what)
    | some (none, x) => w.setSocket i x
    | none => w
  | some operation =>
    match operation.site?.bind fun i => w.sites[i]? with
    | none => w
    | some site => w.moveSite operation site.session

def move (t : Task) (w : World E) : World E :=
  match t with
  | .operation => w.moveOperation
  | .session i => w.moveSession i
  | .background outlet =>
    match w.background.lookup outlet with
    | some (.inr write) =>
      let (progress, w) := w.write outlet write
      { w with
        background := w.background.map fun e => if e.1 = outlet then (outlet, progress) else e }
    | _ => w
  | .watcher i =>
    match w.race? i with
    | none => w
    | some race => w.setRace i race.sweep
  | .pump i pid => w.movePump i pid
  | .sender outlet => w.onLink outlet.link (·.send outlet.side w.now)

def tasks (w : World E) : List Task :=
  let sites := List.range w.sites.length
  let outlets := (List.range w.links.length).flatMap fun i => [⟨i, .a⟩, ⟨i, .b⟩]
  .operation :: sites.map .session ++ w.background.map (.background ·.1) ++ sites.map .watcher ++
    (w.sites.zipIdx.flatMap fun (site, i) => site.attached.map fun (pid, _) => .pump i pid) ++
    outlets.map .sender

/-- No task can move. -/
def isQuiet (w : World E) : Bool := w.tasks.all fun t => !w.canMove t

end World

end PathRace
