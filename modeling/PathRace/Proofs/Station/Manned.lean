import Mathlib.Tactic
import PathRace.Proofs.World.Stations

/-! The path end of a socket in use, for any connection: what the sink does with each message and what
comes in are part of the deeds. The ends of a socket pair are instances (`Socket.Watched.is_manned`). -/

namespace PathRace

namespace Station

/-- What the sink does with a message. -/
inductive Uptake
  | sent
  /-- The sink has not finished with it. -/
  | pending
  /-- It was not sent, or not in time. -/
  | refused
  deriving DecidableEq

/-- What the incoming stream yields. -/
inductive Arrival
  | packet (p : Packet)
  | failed (fault : PathFault)
  | over

/-- An entry of the history of a station. -/
inductive Note
  /-- A write has accepted its chunk. -/
  | accepted (chunk : Bytes)
  | returned (result : Except PathFault Unit)
  | droppedWriter
  /-- A caller closes the path. -/
  | closed (reason : CloseReason)
  /-- The sender stops, which closes the path unless it has been closed before. -/
  | stopped
  /-- A message is given to the sink. -/
  | handed (p : Packet)
  /-- The sink is done with a chunk of `size` bytes. -/
  | finished (size : Nat) (sent : Bool)
  /-- The reader asks for more, with what has come in and its answer. -/
  | asked (arrival : Option Arrival) (answer : Option Inbound)

/-! ### The three parts of a station -/

/-- The first half of a write to an open path. -/
def take (chunk : Bytes) (s : Station) : Station :=
  { s with
    backlog := s.backlog.enqueue (UInt64.ofNat chunk.length)
    outbox := s.outbox ++ [chunk] }

/-- The sender goes on to the close message. -/
def stop (now : Nat) (farewell : Uptake) (s : Station) : List Note × Station :=
  let s := s.close .normal
  let sender := match farewell with
    | .pending => .parting (now + Limit.farewell) false
    | .sent | .refused => .done
  ([.stopped, .handed (Packet.farewell (s.closed.getD .normal))], { s with sender })

def conclude (now size : Nat) (chunk farewell : Uptake) (s : Station) : List Note × Station :=
  match chunk with
  | .sent => ([.finished size true], { s.drain size with sending := none })
  | .pending => ([], { s with sending := some size })
  | .refused =>
    let (notes, s) := { s.drain size with sending := none }.stop now farewell
    (.finished size false :: notes, s)

/-- A turn of the sender, with what the sink does with the chunk and the close message. -/
def turn (now : Nat) (chunk farewell : Uptake) (s : Station) : List Note × Station :=
  match s.sender with
  | .done => ([], s)
  | .parting limit _ =>
    let sender := match farewell with
      | .pending => .parting limit true
      | .sent | .refused => .done
    ([], { s with sender })
  | .running =>
    if s.closed.isSome then s.stop now farewell
    else
      match s.sending, s.outbox with
      | some size, _ => s.conclude now size chunk farewell
      | none, [] => if s.writerHeld then ([], s) else s.stop now farewell
      | none, first :: rest =>
        let (notes, s) := { s with outbox := rest }.conclude now first.length chunk farewell
        (.handed (.binary first) :: notes, s)

/-- A turn of the reader. -/
def hear (arrival : Option Arrival) (s : Station) : Option Inbound × Station :=
  if Socket.hasEnded s then (some .ended, s)
  else
    match arrival with
    | none => (none, s)
    | some (.packet .ping) | some (.packet .pong) => (none, s)
    | some (.packet (.binary data)) => (some (.chunk data), s)
    | some (.packet .text) => (some (.failed .unexpectedText), { s with streaming := false })
    | some (.packet (.close _)) => (some .ended, { s with streaming := false, heard := true })
    | some (.failed fault) => (some (.failed fault), { s with streaming := false })
    | some .over => (some .ended, { s with streaming := false })

theorem hear_eq (arrival : Option Arrival) (s : Station) :
    ∃ streaming heard, (s.hear arrival).2 = { s with streaming, heard } := by
  unfold hear
  split
  · exact ⟨_, _, rfl⟩
  · split <;> exact ⟨_, _, rfl⟩

/-- The possible results of a turn of the sender. -/
inductive Turned (now : Nat) (s : Station) : List Note × Station → Prop
  | rests : Turned now s ([], s)
  | parts {sender : Sender} (parting : s.sender ≠ .running) (still : sender ≠ .running) :
      Turned now s ([], { s with sender })
  | stops {farewell : Uptake} (running : s.sender = .running)
      (cause : s.closed.isSome = true ∨ s.sending = none ∧ s.outbox = [] ∧ s.writerHeld = false) :
      Turned now s (s.stop now farewell)
  | concludes {size : Nat} {chunk farewell : Uptake} (running : s.sender = .running)
      (unclosed : s.closed = none) (sending : s.sending = some size) :
      Turned now s (s.conclude now size chunk farewell)
  | begins {first : Bytes} {rest : List Bytes} {chunk farewell : Uptake} (running : s.sender = .running)
      (unclosed : s.closed = none) (sending : s.sending = none) (outbox : s.outbox = first :: rest) :
      Turned now s
        (.handed (.binary first) :: ({ s with outbox := rest }.conclude now first.length chunk farewell).1,
          ({ s with outbox := rest }.conclude now first.length chunk farewell).2)

theorem turned (now : Nat) (chunk farewell : Uptake) (s : Station) :
    Turned now s (s.turn now chunk farewell) := by
  unfold turn
  split
  next => exact .rests
  next limit spoken sender =>
    have parting : s.sender ≠ .running := by simp [sender]
    apply Turned.parts parting
    split <;> simp
  next running =>
    split
    next closed => exact .stops running (.inl closed)
    next unclosed =>
      rw [Option.not_isSome_iff_eq_none] at unclosed
      split
      next size _ sending => exact .concludes running unclosed sending
      next sending outbox =>
        split
        next => exact .rests
        next dropped => exact .stops running (.inr ⟨sending, outbox, Bool.eq_false_iff.2 dropped⟩)
      next sending outbox => exact .begins running unclosed sending outbox

namespace Turned

variable {now : Nat} {s : Station} {r : List Note × Station}

theorem running (turned : Turned now s r) (h : s.closed = none → s.sender = .running)
    (unclosed : r.2.closed = none) : r.2.sender = .running := by
  cases turned with
  | rests => exact h unclosed
  | parts parting => exact (parting (h unclosed)).elim
  | stops => cases unclosed
  | @concludes _ chunk _ running | @begins _ _ chunk _ running =>
    cases chunk with
    | sent | pending => exact running
    | refused => cases unclosed

theorem filterMap_eq_nil (turned : Turned now s r) {β : Type} {f : Note → Option β}
    (stopped : f .stopped = none) (handed : ∀ p, f (.handed p) = none)
    (finished : ∀ size sent, f (.finished size sent) = none) : r.1.filterMap f = [] := by
  cases turned with
  | rests | parts => rfl
  | stops => simp [stop, stopped, handed]
  | @concludes _ chunk | @begins _ _ chunk =>
    cases chunk <;> simp [conclude, stop, stopped, handed, finished]

end Turned

/-! ### A station in use -/

/-- A station and the write that waits at it. -/
structure Manned where
  station : Station
  waiting : Option Stall

inductive Deed
  /-- A new write replaces one that still waits. -/
  | write (now : Nat) (chunk : Bytes)
  | look (now : Nat)
  | close (reason : CloseReason)
  | dropWriter
  | dropReader
  | turn (now : Nat) (chunk farewell : Uptake)
  | hear (arrival : Option Arrival)

def Deed.isWrite : Deed → Bool
  | .write .. => true
  | _ => false

namespace Manned

def new (marks : Watermarks) : Manned := ⟨.new marks, none⟩

def act (d : Deed) (m : Manned) : List Note × Manned :=
  match d with
  | .write now chunk =>
    if m.station.closed.isSome then ([.returned (.error .closed)], ⟨m.station, none⟩)
    else
      let s := m.station.take chunk
      match Stall.begin now s.backlog with
      | none => ([.accepted chunk, .returned (.ok ())], ⟨s, none⟩)
      | some stall => ([.accepted chunk], ⟨s, some stall⟩)
  | .look now =>
    match m.waiting with
    | none => ([], m)
    | some stall =>
      if stall.isDue m.station.closed.isSome now then
        match stall.look m.station.closed.isSome m.station.backlog with
        | .inl result => ([.returned result], ⟨m.station, none⟩)
        | .inr stall => ([], ⟨m.station, some stall⟩)
      else ([], m)
  | .close reason => ([.closed reason], { m with station := m.station.close reason })
  | .dropWriter => ([.droppedWriter], { m with station := { m.station with writerHeld := false } })
  | .dropReader => ([], { m with station := { m.station with readerHeld := false } })
  | .turn now chunk farewell =>
    ((m.station.turn now chunk farewell).1,
      { m with station := (m.station.turn now chunk farewell).2 })
  | .hear arrival =>
    ([.asked arrival (m.station.hear arrival).1], { m with station := (m.station.hear arrival).2 })

/-- The possible results of a deed. -/
inductive Acted (m : Manned) : Deed → List Note × Manned → Prop
  | refused {now : Nat} {chunk : Bytes} (closed : m.station.closed.isSome = true) :
      Acted m (.write now chunk) ([.returned (.error .closed)], ⟨m.station, none⟩)
  | done {now : Nat} {chunk : Bytes} (unclosed : m.station.closed = none)
      (room : (m.station.take chunk).backlog.isStalled = false) :
      Acted m (.write now chunk) ([.accepted chunk, .returned (.ok ())], ⟨m.station.take chunk, none⟩)
  | waits {now : Nat} {chunk : Bytes} {stall : Stall} (unclosed : m.station.closed = none) :
      Acted m (.write now chunk) ([.accepted chunk], ⟨m.station.take chunk, some stall⟩)
  | rests {now : Nat} {waiting : Option Stall} (still : waiting = none → m.waiting = none) :
      Acted m (.look now) ([], ⟨m.station, waiting⟩)
  | returns {now : Nat} {result : Except PathFault Unit}
      (cause : m.station.closed.isSome = true ∨ m.station.backlog.isDrained = true) :
      Acted m (.look now) ([.returned result], ⟨m.station, none⟩)
  | closes {reason : CloseReason} :
      Acted m (.close reason) ([.closed reason], { m with station := m.station.close reason })
  | dropsWriter :
      Acted m .dropWriter ([.droppedWriter], { m with station := { m.station with writerHeld := false } })
  | dropsReader :
      Acted m .dropReader ([], { m with station := { m.station with readerHeld := false } })
  | turns {now : Nat} {chunk farewell : Uptake} {r : List Note × Station} (turned : Turned now m.station r) :
      Acted m (.turn now chunk farewell) (r.1, { m with station := r.2 })
  | hears {arrival : Option Arrival} {streaming heard : Bool}
      (same : (m.station.hear arrival).2 = { m.station with streaming, heard }) :
      Acted m (.hear arrival) ([.asked arrival (m.station.hear arrival).1],
        { m with station := { m.station with streaming, heard } })

theorem acted_write (now : Nat) (chunk : Bytes) (m : Manned) :
    Acted m (.write now chunk) (m.act (.write now chunk)) := by
  unfold act Stall.begin
  dsimp only
  by_cases closed : m.station.closed.isSome = true
  · rw [if_pos closed]
    exact .refused closed
  · have unclosed : m.station.closed = none := Option.not_isSome_iff_eq_none.1 closed
    rw [if_neg closed]
    by_cases full : (m.station.take chunk).backlog.isStalled = true
    · simp only [if_pos full]
      exact .waits unclosed
    · simp only [if_neg full]
      exact .done unclosed (Bool.eq_false_iff.2 full)

theorem acted_look (now : Nat) (m : Manned) : Acted m (.look now) (m.act (.look now)) := by
  obtain ⟨station, waiting⟩ := m
  unfold act Stall.look
  cases waiting with
  | none => exact .rests id
  | some stall =>
    dsimp only
    split_ifs with due closed drained
    · exact .returns (.inl closed)
    · exact .returns (.inr drained)
    · exact .rests (by simp)
    · exact .rests (by simp)

theorem acted (m : Manned) (d : Deed) : Acted m d (m.act d) := by
  cases d with
  | write now chunk => exact acted_write now chunk m
  | look now => exact acted_look now m
  | close => exact .closes
  | dropWriter => exact .dropsWriter
  | dropReader => exact .dropsReader
  | turn now chunk farewell => exact .turns (m.station.turned now chunk farewell)
  | hear arrival =>
    obtain ⟨streaming, heard, same⟩ := m.station.hear_eq arrival
    have heard := Acted.hears same
    rw [← same] at heard
    exact heard

/-- The history and the state after a list of deeds. -/
def after (marks : Watermarks) (deeds : List Deed) : List Note × Manned :=
  deeds.foldl (fun (notes, m) d => (notes ++ (m.act d).1, (m.act d).2)) ([], new marks)

theorem after_concat (marks : Watermarks) (deeds : List Deed) (d : Deed) :
    after marks (deeds ++ [d]) = ((after marks deeds).1 ++ ((after marks deeds).2.act d).1,
      ((after marks deeds).2.act d).2) := List.foldl_concat ..

theorem notes_after (marks : Watermarks) {before deeds : List Deed} (h : before <+: deeds) :
    (after marks before).1 <+: (after marks deeds).1 := by
  obtain ⟨rest, rfl⟩ := h
  induction rest using List.reverseRecOn with
  | nil => rw [List.append_nil]
  | append_singleton rest d ih =>
    rw [← List.append_assoc, after_concat]
    exact ih.trans (List.prefix_append ..)

/-- While the path is open its sender is running. -/
theorem running_of_unclosed (marks : Watermarks) (deeds : List Deed) :
    (after marks deeds).2.station.closed = none → (after marks deeds).2.station.sender = .running := by
  induction deeds using List.reverseRecOn with
  | nil => exact fun _ => rfl
  | append_singleton deeds d ih =>
    rw [after_concat]
    have acted := (after marks deeds).2.acted d
    generalize (after marks deeds).2.act d = r at acted ⊢
    intro unclosed
    cases acted with
    | closes => cases unclosed
    | turns turned => exact turned.running ih unclosed
    | refused | done | waits | rests | returns | dropsWriter | dropsReader | hears => exact ih unclosed

end Manned

/-! ### History -/

namespace Note

def accepted? : Note → Option Bytes
  | .accepted chunk => some chunk
  | _ => none

def handed? : Note → Option Packet
  | .handed p => some p
  | _ => none

def chunk? : Note → Option Bytes
  | .handed (.binary chunk) => some chunk
  | _ => none

def finished? : Note → Option Nat
  | .finished size _ => some size
  | _ => none

/-- The reason with which an entry closes the path. -/
def reason? : Note → Option CloseReason
  | .closed reason => some reason
  | .stopped => some .normal
  | _ => none

def arrival? : Note → Option Arrival
  | .asked arrival _ => arrival
  | _ => none

def answer? : Note → Option (Option Inbound)
  | .asked _ answer => some answer
  | _ => none

def result? : Note → Option (Except PathFault Unit)
  | .returned result => some result
  | _ => none

/-- The chunk or failure given to the reader. -/
def item? : Note → Option Inbound
  | .asked _ (some (.chunk data)) => some (.chunk data)
  | .asked _ (some (.failed fault)) => some (.failed fault)
  | _ => none

end Note

def accepted (notes : List Note) : List Bytes := notes.filterMap Note.accepted?

def handed (notes : List Note) : List Packet := notes.filterMap Note.handed?

def chunks (notes : List Note) : List Bytes := notes.filterMap Note.chunk?

def finished (notes : List Note) : List Nat := notes.filterMap Note.finished?

def answers (notes : List Note) : List (Option Inbound) := notes.filterMap Note.answer?

def results (notes : List Note) : List (Except PathFault Unit) := notes.filterMap Note.result?

def items (notes : List Note) : List Inbound := notes.filterMap Note.item?

def firstReason (notes : List Note) : Option CloseReason := notes.findSome? Note.reason?

/-- What has come in before the path was closed. -/
def arrivals (notes : List Note) : List Arrival :=
  (notes.takeWhile fun n => n.reason?.isNone).filterMap Note.arrival?

section

variable (notes more : List Note)

theorem accepted_append : accepted (notes ++ more) = accepted notes ++ accepted more :=
  List.filterMap_append ..

theorem handed_append : handed (notes ++ more) = handed notes ++ handed more := List.filterMap_append ..

theorem chunks_append : chunks (notes ++ more) = chunks notes ++ chunks more := List.filterMap_append ..

theorem finished_append : finished (notes ++ more) = finished notes ++ finished more :=
  List.filterMap_append ..

theorem answers_append : answers (notes ++ more) = answers notes ++ answers more :=
  List.filterMap_append ..

theorem results_append : results (notes ++ more) = results notes ++ results more :=
  List.filterMap_append ..

theorem items_append : items (notes ++ more) = items notes ++ items more := List.filterMap_append ..

end

end Station

end PathRace
