import Mathlib
import PathRace.Proofs.Channel.Passage
import PathRace.Proofs.Channel.Winner
import PathRace.Proofs.Pair.Agreement
import PathRace.Proofs.Pair.Handshake
import PathRace.Session

/-! End-to-end delivery over a connection. Two devices have nominated one path with one set of keys;
each sends and receives in any order, and the transport carries the bytes in order, cut into arbitrary
chunks. `Carried` accounts for the bytes between a `send` and the matching `recv`: the pieces still to
be written, the transport, the receiver's race and its engine. -/

namespace PathRace

/-! ### One end -/

/-- One end of a connection, with the results of its calls. -/
structure Endpoint (S : Suite) where
  session : Session (Exchange S)
  /-- The unwritten pieces of the frame that is being written. -/
  todo : List Bytes
  given : List Bytes
  written : List Bytes
  returned : List (Except Failure (Option Bytes))
  failures : List Failure

namespace Endpoint

variable {S : Suite}

/-- The payloads of the sends that have returned. -/
def sent (e : Endpoint S) : List Bytes := if e.todo = [] then e.given else e.given.dropLast

/-- A send begins only after the one before it has returned. -/
def send (data : Bytes) (e : Endpoint S) : Endpoint S :=
  if e.todo = [] then
    match e.session.send data with
    | (.ok pieces, session) => { e with session, todo := pieces, given := e.given ++ [data] }
    | (.error failure, session) => { e with session, failures := e.failures ++ [failure] }
  else e

def pump (pid : PathId) (item : Option Inbound) (e : Endpoint S) : Endpoint S :=
  { e with session.race := e.session.race.after (.pump pid item) }

/-- The first step of `recv` asks the engine. -/
def take (now : Nat) (s : Entropy) (e : Endpoint S) : Endpoint S :=
  match e.session.take now s with
  | (none, session, _) => { e with session }
  | (some result, session, _) => { e with session, returned := e.returned ++ [result.map some] }

/-- The second step of `recv` feeds the engine the next chunk. -/
def feed (e : Endpoint S) : Endpoint S :=
  match e.session.feed with
  | (some (.ok none), session) => { e with session, returned := e.returned ++ [.ok none] }
  | (some (.error failure), session) => { e with session, returned := e.returned ++ [.error failure] }
  | (_, session) => { e with session }

end Endpoint

/-! ### Both ends -/

structure Channel (S : Suite) where
  pid : PathId
  ends : Role → Endpoint S
  /-- What a device has written to the path and the transport has not delivered yet. -/
  flight : Role → Bytes

namespace Channel

variable {S : Suite}

inductive Act
  | send (data : Bytes)
  | write
  /-- The transport delivers a chunk of at most `n` bytes. -/
  | deliver (n : Nat)
  /-- A move of a pump other than taking a chunk of the nominated path. -/
  | pump (q : PathId) (item : Option Inbound)
  | take (now : Nat) (s : Entropy)
  | feed

def set (r : Role) (e : Endpoint S) (flight : Role → Bytes) (c : Channel S) : Channel S :=
  { c with ends := Function.update c.ends r e, flight }

def write (r : Role) (c : Channel S) : Channel S :=
  let e := c.ends r
  match e.todo with
  | [] => c
  | piece :: todo =>
    match e.session.race.openWinnerWrite with
    | .refused failure => c.set r { e with todo := [], failures := e.failures ++ [failure] } c.flight
    | _ => c.set r { e with todo, written := e.written ++ [piece] }
        (Function.update c.flight r (c.flight r ++ piece))

def deliver (r : Role) (n : Nat) (c : Channel S) : Channel S :=
  if (c.ends r).session.race.isReading c.pid then
    c.set r ((c.ends r).pump c.pid (some (.chunk ((c.flight r.peer).take n))))
      (Function.update c.flight r.peer ((c.flight r.peer).drop n))
  else c

/-- The nominated path neither ends nor fails. -/
def pump (r : Role) (q : PathId) (item : Option Inbound) (c : Channel S) : Channel S :=
  if q = c.pid ∧ item ≠ none then c else c.set r ((c.ends r).pump q item) c.flight

def after (c : Channel S) : Role × Act → Channel S
  | (r, .send data) => c.set r ((c.ends r).send data) c.flight
  | (r, .write) => c.write r
  | (r, .deliver n) => c.deliver r n
  | (r, .pump q item) => c.pump r q item
  | (r, .take now s) => c.set r ((c.ends r).take now s) c.flight
  | (r, .feed) => c.set r (c.ends r).feed c.flight

def run (c : Channel S) (ms : List (Role × Act)) : Channel S := ms.foldl after c

def payload (r : Role) : Role × Act → List Bytes
  | (q, .send data) => if q = r then [data] else []
  | _ => []

def payloads (r : Role) (ms : List (Role × Act)) : List Bytes := ms.flatMap (payload r)

/-- The bytes that are on their way to a device and not yet in its engine. -/
def coming (c : Channel S) (r : Role) : Bytes :=
  (c.ends r).session.race.stock c.pid ++ c.flight r.peer ++ (c.ends r.peer).todo.flatten

/-- Everything has been written and delivered, no pump can hand over a chunk, and `recv` can only wait. -/
def Drained (c : Channel S) (r : Role) : Prop :=
  (c.ends r.peer).todo = [] ∧ c.flight r.peer = [] ∧
    (∀ q, (c.ends r).session.race.canPump q false = false) ∧ (c.ends r).session.feed.1 = none ∧
    ∃ now s, ((c.ends r).session.take now s).1 = none

end Channel

/-! ### What every move keeps -/

/-- What a device holds of the nominated path, and the payloads it has got. -/
structure View where
  inbox : Reassembly
  transport : Transport
  got : List Bytes

/-- The end is connected with path `pid` nominated, and no call has failed. -/
structure Endpoint.Works {S : Suite} (e : Endpoint S) (pid : PathId) (v : View) : Prop where
  engine : ∃ x hash, e.session.state = .connected x pid hash ∧ x.Carries pid v.inbox v.transport
  flows : e.session.race.Flowing pid
  cut : ∀ piece ∈ e.written ++ e.todo, 0 < piece.length ∧ piece.length ≤ Limit.piece
  returned : e.returned = v.got.map fun data => .ok (some data)
  calm : e.failures = []

theorem Session.read_of_feed {E : Type} [Engine E] {x : Session E} {engine : E} {pid : PathId}
    {hash : PathHash} (state : x.state = .connected engine pid hash) (waits : x.feed.1 = none) :
    x.race.read.1 = none := by
  unfold Session.feed at waits
  rw [state] at waits
  revert waits
  rcases x.race.read with ⟨_ | failure | _ | data, race⟩
  · exact fun _ => rfl
  · exact fun waits => by cases waits
  · exact fun waits => by cases waits
  · intro waits
    dsimp only at waits
    split at waits <;> cases waits

theorem Endpoint.Works.race {S : Suite} {e : Endpoint S} {pid : PathId} {v : View}
    (h : e.Works pid v) {race : Race} (flows : race.Flowing pid) :
    ({ e with session.race := race } : Endpoint S).Works pid v where
  engine := h.engine
  flows := flows
  cut := h.cut
  returned := h.returned
  calm := h.calm

namespace Channel

variable {S : Suite} {c : Channel S} {v : Role → View} {r : Role}

/-- Both ends work, and the bytes between them are those sent, in order. -/
structure Carried (c : Channel S) (v : Role → View) : Prop where
  works : ∀ r, (c.ends r).Works c.pid (v r)
  passage : ∀ r, Passage S (v r).transport.rx (v r.peer).transport.tx
    ((v r).inbox.buffer ++ c.coming r) (v r).got (c.ends r.peer).given

theorem Carried.outward (h : c.Carried v) (r : Role) :
    Passage S (v r.peer).transport.rx (v r).transport.tx
      ((v r.peer).inbox.buffer ++ ((c.ends r.peer).session.race.stock c.pid ++ c.flight r ++
        (c.ends r).todo.flatten)) (v r.peer).got (c.ends r).given := by
  have passage := h.passage r.peer
  simp only [coming, Role.peer_peer] at passage
  exact passage

@[simp] theorem set_self (c : Channel S) (r : Role) : c.set r (c.ends r) c.flight = c := by
  simp [Channel.set]

theorem Carried.set (h : c.Carried v) {e : Endpoint S} {flight : Role → Bytes} {w : View}
    (works : e.Works c.pid w)
    (inward : Passage S w.transport.rx (v r.peer).transport.tx
      (w.inbox.buffer ++ (e.session.race.stock c.pid ++ flight r.peer ++
        (c.ends r.peer).todo.flatten)) w.got (c.ends r.peer).given)
    (outward : Passage S (v r.peer).transport.rx w.transport.tx
      ((v r.peer).inbox.buffer ++ ((c.ends r.peer).session.race.stock c.pid ++ flight r ++
        e.todo.flatten)) (v r.peer).got e.given) :
    (c.set r e flight).Carried (Function.update v r w) := by
  have apart : r.peer ≠ r := (Role.ne_peer r).symm
  constructor
  · intro q
    rcases Role.eq_or_eq_peer q r with rfl | rfl
    · simpa [Channel.set] using works
    · simpa [Channel.set, apart] using h.works r.peer
  · intro q
    rcases Role.eq_or_eq_peer q r with rfl | rfl
    · simpa [Channel.set, coming, apart] using inward
    · simpa [Channel.set, coming, apart] using outward

/-! ### Move by move -/

theorem Carried.send (h : c.Carried v) {data : Bytes} (short : data.length ≤ Limit.frame - 17)
    (bound : (c.ends r).given.length < 2 ^ 64 - 3) :
    ∃ w, (c.set r ((c.ends r).send data) c.flight).Carried w := by
  obtain ⟨⟨x, hash, state, carries⟩, flows, cut, returned, calm⟩ := h.works r
  have outward := h.outward r
  unfold Endpoint.send
  by_cases idle : (c.ends r).todo = []
  · have fits := Lane.fits_ulp short
    obtain ⟨x', created, carries'⟩ := carries.createFrame (outward.fresh bound) fits
    have sent : (c.ends r).session.send data =
        (.ok (Bytes.chunks Limit.piece ((v r).transport.tx.framed S (.ulp data))),
          { (c.ends r).session with state := .connected x' c.pid hash }) := by
      simp only [Session.send, state, flows.quiet, created]
      rfl
    rw [if_pos idle, sent]
    have whole := Bytes.flatten_chunks (by decide : Limit.piece ≠ 0)
      ((v r).transport.tx.framed S (.ulp data))
    refine ⟨_, h.set (w := { v r with transport.tx := (v r).transport.tx.advance })
      ⟨⟨x', hash, rfl, carries'⟩, flows, ?_, returned, calm⟩ (h.passage r) ?_⟩
    · intro piece hp
      rcases List.mem_append.1 hp with hp | hp
      · exact cut piece (List.mem_append_left _ hp)
      · exact Bytes.length_of_mem_chunks hp
    · have step := outward.send fits
      simp only [idle, List.flatten_nil, List.append_nil, List.append_assoc] at step
      simpa only [whole, List.append_assoc] using step
  · rw [if_neg idle, set_self]
    exact ⟨v, h⟩

theorem Carried.write (h : c.Carried v) (r : Role) : ∃ w, (c.write r).Carried w := by
  obtain ⟨engine, flows, cut, returned, calm⟩ := h.works r
  have outward := h.outward r
  cases left : (c.ends r).todo with
  | nil => exact ⟨v, by simpa only [Channel.write, left] using h⟩
  | cons piece todo =>
    simp only [Channel.write, left, flows.openWinnerWrite]
    have apart : r.peer ≠ r := (Role.ne_peer r).symm
    refine ⟨_, h.set ⟨engine, flows, ?_, returned, calm⟩ ?_ ?_⟩
    · intro p hp
      apply cut
      simpa [left, List.append_assoc] using hp
    · simpa [apart, coming] using h.passage r
    · simpa [left, List.append_assoc] using outward

theorem Carried.deliver (h : c.Carried v) (r : Role) (n : Nat) :
    ∃ w, (c.deliver r n).Carried w := by
  have works := h.works r
  unfold Channel.deliver
  by_cases reading : (c.ends r).session.race.isReading c.pid = true
  · rw [if_pos reading]
    obtain ⟨flows, stock⟩ := works.flows.chunk reading ((c.flight r.peer).take n)
    have apart : r ≠ r.peer := Role.ne_peer r
    refine ⟨_, h.set (works.race flows) ?_ ?_⟩
    · have passage := h.passage r
      rw [coming, ← List.take_append_drop n (c.flight r.peer)] at passage
      simpa [Endpoint.pump, stock] using passage
    · simpa [apart, Endpoint.pump] using h.outward r
  · rw [if_neg reading]
    exact ⟨v, h⟩

theorem Carried.pump (h : c.Carried v) (r : Role) (q : PathId) (item : Option Inbound) :
    ∃ w, (c.pump r q item).Carried w := by
  have works := h.works r
  unfold Channel.pump
  by_cases mine : q = c.pid ∧ item ≠ none
  · rw [if_pos mine]
    exact ⟨v, h⟩
  · rw [if_neg mine]
    obtain ⟨flows, stock⟩ := works.flows.nothing fun same => not_not.1 fun taken => mine ⟨same, taken⟩
    refine ⟨_, h.set (works.race flows) ?_ (h.outward r)⟩
    rw [Endpoint.pump, stock]
    exact h.passage r

theorem Carried.take (h : c.Carried v) (now : Nat) (s : Entropy)
    (bound : (c.ends r.peer).given.length < 2 ^ 64 - 3) :
    ∃ w, (c.set r ((c.ends r).take now s) c.flight).Carried w := by
  obtain ⟨⟨x, hash, state, carries⟩, flows, cut, returned, calm⟩ := h.works r
  rcases (h.passage r).next bound with ⟨empty, -⟩ | ⟨ciphertext, data, inbox, next, opens, passage⟩
  · have processed := carries.processFrame_none empty now s
    have taken : (c.ends r).take now s = c.ends r := by
      simp only [Endpoint.take, Session.take, state, processed]
      rw [← state]
    rw [taken, set_self]
    exact ⟨v, h⟩
  · obtain ⟨x', processed, carries'⟩ := carries.processFrame_some next opens now s
    have taken : (c.ends r).take now s = { c.ends r with
        session.state := .connected x' c.pid hash
        returned := (c.ends r).returned ++ [.ok (some data)] } := by
      simp only [Endpoint.take, Session.take, state, processed]
      rfl
    rw [taken]
    refine ⟨_, h.set (w := ⟨inbox, { (v r).transport with rx := (v r).transport.rx.advance },
      (v r).got ++ [data]⟩) ⟨⟨x', hash, rfl, carries'⟩, flows, cut, ?_, calm⟩ passage (h.outward r)⟩
    simp [returned]

theorem Carried.feed (h : c.Carried v) (r : Role) :
    ∃ w, (c.set r (c.ends r).feed c.flight).Carried w := by
  obtain ⟨⟨x, hash, state, carries⟩, flows, cut, returned, calm⟩ := h.works r
  rcases flows.read with waits | ⟨data, answer, flows', stock⟩
  · have fed : (c.ends r).feed = c.ends r := by
      simp only [Endpoint.feed, Session.feed, state, waits]
      rw [← state]
    rw [fed, set_self]
    exact ⟨v, h⟩
  · obtain ⟨x', added, carries'⟩ := carries.addChunk data
    have read : (c.ends r).session.race.read =
        (some (.ok (some data)), (c.ends r).session.race.read.2) := by rw [← answer]
    have fed : (c.ends r).feed = { c.ends r with
        session := ⟨(c.ends r).session.race.read.2, .connected x' c.pid hash⟩ } := by
      rw [Endpoint.feed, Session.feed, state]
      dsimp only
      rw [read]
      dsimp only
      rw [added]
    rw [fed]
    refine ⟨_, h.set (w := { v r with inbox := (v r).inbox.push data })
      ⟨⟨x', hash, rfl, carries'⟩, flows', cut, returned, calm⟩ ?_ (h.outward r)⟩
    have passage := h.passage r
    rw [coming, stock] at passage
    simpa [Reassembly.push] using passage

theorem Carried.after (h : c.Carried v) (m : Role × Act)
    (short : ∀ r, ∀ data ∈ payload r m, data.length ≤ Limit.frame - 17)
    (bound : ∀ r, (c.ends r).given.length < 2 ^ 64 - 3) : ∃ w, (c.after m).Carried w := by
  obtain ⟨r, act⟩ := m
  cases act with
  | send data => exact h.send (short r data (by simp [payload])) (bound r)
  | write => exact h.write r
  | deliver n => exact h.deliver r n
  | pump q item => exact h.pump r q item
  | take now s => exact h.take now s (bound r.peer)
  | feed => exact h.feed r

/-! ### A whole run -/

theorem given_send (e : Endpoint S) (data : Bytes) :
    (e.send data).given.length ≤ e.given.length + 1 := by
  unfold Endpoint.send
  split
  · split
    · simp
    · simp
  · omega

theorem given_take (e : Endpoint S) (now : Nat) (s : Entropy) : (e.take now s).given = e.given := by
  unfold Endpoint.take
  split <;> rfl

theorem given_feed (e : Endpoint S) : e.feed.given = e.given := by
  unfold Endpoint.feed
  split <;> rfl

theorem given_set {q r : Role} {e : Endpoint S} {flight : Role → Bytes}
    (same : e.given = (c.ends q).given) : ((c.set q e flight).ends r).given = (c.ends r).given := by
  by_cases hr : r = q
  · subst hr
    simpa [Channel.set] using same
  · simp [Channel.set, hr]

theorem given_write (c : Channel S) (q r : Role) : ((c.write q).ends r).given = (c.ends r).given := by
  cases left : (c.ends q).todo with
  | nil => simp only [Channel.write, left]
  | cons piece todo =>
    simp only [Channel.write, left]
    split <;> exact given_set rfl

theorem given_after (c : Channel S) (m : Role × Act) (r : Role) :
    ((c.after m).ends r).given.length ≤ (c.ends r).given.length + (payload r m).length := by
  obtain ⟨q, act⟩ := m
  have still {c' : Channel S} (same : (c'.ends r).given = (c.ends r).given) (more : Nat) :
      (c'.ends r).given.length ≤ (c.ends r).given.length + more := by
    rw [same]
    exact Nat.le_add_right _ _
  cases act with
  | send data =>
    by_cases hr : r = q
    · subst hr
      simpa [Channel.after, Channel.set, payload] using given_send (c.ends r) data
    · simp [Channel.after, Channel.set, hr]
  | write => exact still (given_write c q r) _
  | deliver n =>
    apply still
    simp only [Channel.after, Channel.deliver]
    split
    · exact given_set rfl
    · rfl
  | pump p item =>
    apply still
    simp only [Channel.after, Channel.pump]
    split
    · rfl
    · exact given_set rfl
  | take now s => exact still (given_set (given_take (c.ends q) now s)) _
  | feed => exact still (given_set (given_feed (c.ends q))) _

theorem given_run (c : Channel S) (ms : List (Role × Act)) (r : Role) :
    ((c.run ms).ends r).given.length ≤ (c.ends r).given.length + (payloads r ms).length := by
  induction ms generalizing c with
  | nil => simp [Channel.run]
  | cons m ms ih =>
    have later := ih (c.after m)
    have grown := given_after c m r
    rw [show payloads r (m :: ms) = payload r m ++ payloads r ms from List.flatMap_cons,
      List.length_append]
    rw [show c.run (m :: ms) = (c.after m).run ms from rfl]
    omega

theorem Carried.run (h : c.Carried v) (ms : List (Role × Act))
    (short : ∀ r, ∀ data ∈ payloads r ms, data.length ≤ Limit.frame - 17)
    (bound : ∀ r, (c.ends r).given.length + (payloads r ms).length < 2 ^ 64 - 3) :
    ∃ w, (c.run ms).Carried w := by
  induction ms generalizing c v with
  | nil => exact ⟨v, h⟩
  | cons m ms ih =>
    have split (r : Role) : payloads r (m :: ms) = payload r m ++ payloads r ms := List.flatMap_cons
    obtain ⟨w, h'⟩ := h.after m
      (fun r data hd => short r data (split r ▸ List.mem_append_left _ hd))
      (fun r => by have := bound r; omega)
    apply ih h'
    · intro r data hd
      exact short r data (split r ▸ List.mem_append_right _ hd)
    · intro r
      have total := bound r
      have grown := given_after c m r
      rw [split, List.length_append] at total
      omega

/-- The state at the start of a connection: the same path is nominated at both ends, each sends with the
keys the other receives with, and nothing has been received. Frames may already be on their way or in
the engines. -/
structure Opened (c : Channel S) (inbox : Role → Reassembly) (t : Role → Transport) : Prop where
  engine : ∀ r, ∃ x hash, (c.ends r).session.state = .connected x c.pid hash ∧
    x.Carries c.pid (inbox r) (t r)
  flows : ∀ r, (c.ends r).session.race.Flowing c.pid
  unused : ∀ r, (c.ends r).todo = [] ∧ (c.ends r).written = [] ∧ (c.ends r).returned = [] ∧
    (c.ends r).failures = []
  keys : ∀ r, Passage S (t r).rx (t r.peer).tx ((inbox r).buffer ++ c.coming r) []
    (c.ends r.peer).given

theorem Opened.carried {inbox : Role → Reassembly} {t : Role → Transport} (h : c.Opened inbox t) :
    c.Carried fun r => ⟨inbox r, t r, []⟩ where
  works r := by
    obtain ⟨todo, written, returned, calm⟩ := h.unused r
    refine ⟨h.engine r, h.flows r, ?_, returned, calm⟩
    simp [todo, written]
  passage := h.keys

theorem Carried.within (h : c.Carried v) (r : Role) : (v r).got <+: (c.ends r.peer).sent := by
  unfold Endpoint.sent
  by_cases idle : (c.ends r.peer).todo = []
  · rw [if_pos idle]
    exact (h.passage r).within
  · rw [if_neg idle]
    apply (h.passage r).behind
    obtain ⟨piece, todo, left⟩ := List.exists_cons_of_ne_nil idle
    obtain ⟨long, -⟩ := (h.works r.peer).cut piece (by simp [left])
    simp [coming, left, List.ne_nil_of_length_pos long]

theorem Carried.drained (h : c.Carried v) (bound : (c.ends r.peer).given.length < 2 ^ 64 - 3)
    (drained : c.Drained r) : (v r).got = (c.ends r.peer).sent := by
  obtain ⟨todo, flight, rest, fed, now, s, taken⟩ := drained
  rw [Endpoint.sent, if_pos todo]
  obtain ⟨⟨x, hash, state, carries⟩, flows, -⟩ := h.works r
  have stock := flows.stock_of_rest (Session.read_of_feed state fed) rest
  rcases (h.passage r).next bound with ⟨-, all⟩ | ⟨ciphertext, data, inbox, next, opens, -⟩
  · apply all
    simp [coming, todo, flight, stock]
  · obtain ⟨x', processed, -⟩ := carries.processFrame_some next opens now s
    simp only [Session.take, state, processed] at taken
    cases taken

/-- For any payloads, order of calls and chunking by the transport: every piece written has an
admissible size, no call fails, and the payloads an end has returned are at every moment a prefix of
those the other end has sent, and all of them once everything has been delivered and drained. -/
theorem delivers_what_is_sent {inbox : Role → Reassembly} {t : Role → Transport}
    (opened : c.Opened inbox t) (ms : List (Role × Act))
    (short : ∀ r, ∀ data ∈ payloads r ms, data.length ≤ Limit.frame - 17)
    (bound : ∀ r, (c.ends r).given.length + (payloads r ms).length < 2 ^ 64 - 3) :
    let u := c.run ms
    ∀ r, (∀ piece ∈ (u.ends r).written, 1 ≤ piece.length ∧ piece.length ≤ Limit.piece) ∧
      (u.ends r).failures = [] ∧
      ∃ got : List Bytes, (u.ends r).returned = got.map (fun data => .ok (some data)) ∧
        got <+: (u.ends r.peer).sent ∧ (u.Drained r → got = (u.ends r.peer).sent) := by
  intro u r
  obtain ⟨w, carried⟩ : ∃ w, u.Carried w := opened.carried.run ms short bound
  obtain ⟨-, -, cut, returned, calm⟩ := carried.works r
  have few : (u.ends r.peer).given.length < 2 ^ 64 - 3 := by
    have total := bound r.peer
    have grown : (u.ends r.peer).given.length ≤ _ := given_run c ms r.peer
    omega
  refine ⟨fun piece hp => cut piece (List.mem_append_left _ hp), calm, (w r).got, returned, ?_, ?_⟩
  · exact carried.within r
  · exact carried.drained few

/-! ### After a handshake -/

def plainEngine (r : Role) : Exchange Suite.plain :=
  (Relay.run (Relay.plainHandshake ++ Relay.plainNomination) Relay.plainRelay).pair.engine r

/-- Each device has sent one message under its path key. -/
def plainTransport (r : Role) : Transport :=
  let start := Transport.start r 7 Pair.plainKeys
  { start with tx := start.tx.advance, rx := start.rx.advance }

def plainChannel : Channel Suite.plain where
  pid := 7
  ends r :=
    { session := ⟨((Race.Tape.opened [] [7]).run [.nominate 7]).race,
        .connected (plainEngine r) 7 (plainTransport r).hash⟩
      todo := [], given := [], written := [], returned := [], failures := [] }
  flight _ := []

theorem opened_plainChannel : plainChannel.Opened (fun _ => Reassembly.empty) plainTransport where
  engine r := ⟨plainEngine r, _, rfl, by cases r <;> decide +kernel, by cases r <;> decide +kernel⟩
  flows r :=
    { seated := ((Race.intact_opened [] [7]).run [.nominate 7]).seated
      quiet := by cbv
      consumer := ⟨[], by cbv⟩
      present := List.contains_iff_mem.1 (by cbv) }
  unused r := ⟨rfl, rfl, rfl, rfl⟩
  keys r := by
    have count : (plainTransport r).rx.counter.toNat ≤ 2 := by cases r <;> decide
    have same : (plainTransport r.peer).tx = (plainTransport r).rx := by cases r <;> rfl
    have nothing : plainChannel.coming r = [] := by cases r <;> cbv
    rw [same, nothing]
    exact Passage.start count

/-- Three bytes in one direction, delivered in two chunks, and an empty payload in the other. -/
def plainCalls : List (Role × Act) :=
  [(.initiator, .send [1, 2, 3]), (.responder, .send []), (.initiator, .write), (.responder, .write),
    (.responder, .take 0 (.cycle [])), (.responder, .deliver 5), (.responder, .pump 7 none),
    (.responder, .feed), (.responder, .take 0 (.cycle [])), (.responder, .deliver 100),
    (.responder, .pump 7 none), (.responder, .feed), (.responder, .take 0 (.cycle []))]

theorem delivers_what_is_sent_plain :
    plainChannel.Opened (fun _ => Reassembly.empty) plainTransport ∧
    (∀ r, ∀ data ∈ payloads r plainCalls, data.length ≤ Limit.frame - 17) ∧
    (∀ r, (plainChannel.ends r).given.length + (payloads r plainCalls).length < 2 ^ 64 - 3) ∧
    (plainChannel.run plainCalls).Drained .responder ∧
    ((plainChannel.run plainCalls).ends .responder).returned = [.ok (some [1, 2, 3])] := by
  have short : ∀ r, ∀ data ∈ payloads r plainCalls, data.length ≤ Limit.frame - 17 := by
    intro r
    cases r <;> decide
  have bound : ∀ r, (plainChannel.ends r).given.length + (payloads r plainCalls).length <
      2 ^ 64 - 3 := by
    intro r
    cases r <;> decide
  have drained : (plainChannel.run plainCalls).Drained .responder := by
    have running : ((plainChannel.run plainCalls).ends .responder).session.race.isHalting = false := by
      cbv
    have no_line : ((plainChannel.run plainCalls).ends .responder).session.race.line = [] := by cbv
    refine ⟨by cbv, by cbv, fun q => ?_, by cbv, 0, .cycle [], by cbv⟩
    simp [Race.canPump, Race.canGrant, running, no_line]
  obtain ⟨-, -, got, returned, -, all⟩ :=
    delivers_what_is_sent opened_plainChannel plainCalls short bound .responder
  have sent : ((plainChannel.run plainCalls).ends .initiator).sent = [[1, 2, 3]] := by cbv
  refine ⟨opened_plainChannel, short, bound, drained, ?_⟩
  rw [returned, all drained]
  exact congrArg _ sent

end Channel

end PathRace
