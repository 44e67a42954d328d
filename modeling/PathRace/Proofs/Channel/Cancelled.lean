import PathRace.Proofs.Channel.Delivery
import PathRace.Proofs.Connection.Halves

/-! Sends that are cancelled. A send takes its sequence number before it writes the first piece of its
frame, so a frame that is cut off cannot be completed or sent again. As long as nothing is sent after a
cut, what the path has accepted is a row of whole frames followed by a proper prefix of one more, and
the receiver opens every whole frame (`accepted_opens`). -/

namespace PathRace

/-! ### Rows of frames -/

namespace Lane

variable {S : Suite}

end Lane

/-! ### Everything that is sent -/

namespace Exchange

variable {S : Suite} {x : Exchange S} {pid : PathId} {inbox inbox' : Reassembly} {t t' : Transport}

theorem Carries.unique (h : x.Carries pid inbox t) (k : x.Carries pid inbox' t') : t' = t := by
  have same := h.strand.symm.trans k.strand
  cases same
  rfl

theorem Carries.tx_addChunk {chunk : Bytes} (h : x.Carries pid inbox t)
    (k : (Engine.addChunk pid chunk x).2.Carries pid inbox' t') : t'.tx = t.tx := by
  obtain ⟨x', added, carries⟩ := h.addChunk chunk
  rw [added] at k
  rw [carries.unique k]

theorem Carries.tx_processFrame {now : Nat} {s : Entropy} (h : x.Carries pid inbox t)
    (k : (Engine.processFrame pid now x s).2.1.Carries pid inbox' t') : t'.tx = t.tx := by
  have turn := turn_processFrame x pid now s
  have same : (Engine.processFrame pid now x s).2.1 = (x.call (.processFrame pid now s)).2 := rfl
  rw [same] at k
  generalize (x.call (.processFrame pid now s)).2 = x' at k turn
  generalize x.yields (.processFrame pid now s) = ys at turn
  cases turn with
  | still => rw [h.unique k]
  | @turned q old new used o x' deed turned =>
    have before := turned.before
    have after := turned.after
    cases deed with
    | refused =>
      rw [k.strand] at after
      cases after
    | took next advance =>
      rw [h.strand] at before
      rw [k.strand] at after
      cases before
      cases advance with
      | carried =>
        cases after
        rfl

end Exchange

/-! ### Sends that can be cancelled -/

/-- Drops the unwritten rest of a frame, if it is lost. -/
def Endpoint.cut {S : Suite} (lost : Bool) (e : Endpoint S) : Endpoint S :=
  if lost then { e with todo := [] } else e

theorem Endpoint.cut_of_idle {S : Suite} {e : Endpoint S} (idle : e.todo = []) (lost : Bool) :
    e.cut lost = e := by
  cases lost with
  | false => rfl
  | true =>
    obtain ⟨session, todo, given, written, returned, failures⟩ := e
    obtain rfl : todo = [] := idle
    rfl

namespace Channel

/-- A channel whose sends may be cancelled. A piece is accepted as a whole or not at all, so a send is
cancelled between two pieces. -/
structure Cancellable (S : Suite) where
  channel : Channel S
  /-- Whether a send has been cancelled with part of its frame not accepted. -/
  lost : Role → Bool

namespace Cancellable

inductive Act
  | plain (a : Channel.Act)
  | cancel

/-- The acts other than cancelling. -/
def plain (ms : List (Role × Act)) : List (Role × Channel.Act) :=
  ms.filterMap fun
    | (r, .plain a) => some (r, a)
    | (_, .cancel) => none

variable {S : Suite}

def after (u : Cancellable S) : Role × Act → Cancellable S
  | (r, .plain a) => { u with channel := u.channel.after (r, a) }
  | (r, .cancel) =>
    { channel := u.channel.set r ((u.channel.ends r).cut true) u.channel.flight
      lost := Function.update u.lost r (u.lost r || !(u.channel.ends r).todo.isEmpty) }

def run (ms : List (Role × Act)) (u : Cancellable S) : Cancellable S := ms.foldl after u

/-- Whether a payload is sent after a frame that has been accepted in part. -/
def resumes : List (Role × Act) → Cancellable S → Bool
  | [], _ => false
  | m :: ms, u =>
    (match m with
      | (r, .plain (.send _)) => u.lost r
      | _ => false) || resumes ms (u.after m)

end Cancellable

def cancellable {S : Suite} (c : Channel S) : Cancellable S := ⟨c, fun _ => false⟩

/-! ### The same calls without cancellation -/

variable {S : Suite} {c : Channel S} {lost : Role → Bool} {r : Role}

def cut (lost : Role → Bool) (c : Channel S) : Channel S :=
  { c with ends := fun r => (c.ends r).cut (lost r) }

theorem set_cut {e : Endpoint S} {flight : Role → Bytes} :
    (c.cut lost).set r (e.cut (lost r)) flight = (c.set r e flight).cut lost := by
  have ends : Function.update (fun r => (c.ends r).cut (lost r)) r (e.cut (lost r)) =
      fun q => (Function.update c.ends r e q).cut (lost q) := by
    funext q
    by_cases hq : q = r
    · subst hq; simp
    · simp [hq]
  simp only [Channel.set, Channel.cut, ends]

theorem take_cut (e : Endpoint S) (b : Bool) (now : Nat) (s : Entropy) :
    (e.cut b).take now s = (e.take now s).cut b := by
  cases b with
  | false => rfl
  | true =>
    simp only [Endpoint.cut, if_true, Endpoint.take]
    split <;> rfl

theorem feed_cut (e : Endpoint S) (b : Bool) : (e.cut b).feed = e.feed.cut b := by
  cases b with
  | false => rfl
  | true =>
    simp only [Endpoint.cut, if_true, Endpoint.feed]
    split <;> rfl

@[simp] theorem session_cut (e : Endpoint S) (b : Bool) : (e.cut b).session = e.session := by
  cases b <;> rfl

@[simp] theorem given_cut (e : Endpoint S) (b : Bool) : (e.cut b).given = e.given := by
  cases b <;> rfl

theorem pump_cut (e : Endpoint S) (b : Bool) (q : PathId) (item : Option Inbound) :
    (e.cut b).pump q item = (e.pump q item).cut b := by
  cases b <;> rfl

theorem todo_take (e : Endpoint S) (now : Nat) (s : Entropy) : (e.take now s).todo = e.todo := by
  unfold Endpoint.take
  split <;> rfl

theorem todo_feed (e : Endpoint S) : e.feed.todo = e.todo := by
  unfold Endpoint.feed
  split <;> rfl

theorem written_take (e : Endpoint S) (now : Nat) (s : Entropy) : (e.take now s).written = e.written := by
  unfold Endpoint.take
  split <;> rfl

theorem written_feed (e : Endpoint S) : e.feed.written = e.written := by
  unfold Endpoint.feed
  split <;> rfl

@[simp] theorem ends_cut (c : Channel S) (lost : Role → Bool) (r : Role) :
    (c.cut lost).ends r = (c.ends r).cut (lost r) := rfl

@[simp] theorem pid_cut (c : Channel S) (lost : Role → Bool) : (c.cut lost).pid = c.pid := rfl

@[simp] theorem flight_cut (c : Channel S) (lost : Role → Bool) : (c.cut lost).flight = c.flight := rfl

theorem ends_set_of_ne {q : Role} {e : Endpoint S} {flight : Role → Bytes} (h : q ≠ r) :
    (c.set r e flight).ends q = c.ends q := Function.update_of_ne h ..

theorem ends_write_of_ne {q : Role} (h : q ≠ r) : (c.write r).ends q = c.ends q := by
  cases left : (c.ends r).todo with
  | nil => simp only [Channel.write, left]
  | cons piece todo =>
    simp only [Channel.write, left]
    split <;> exact ends_set_of_ne h

theorem write_cut (h : lost r = false) : (c.cut lost).write r = (c.write r).cut lost := by
  have whole (e : Endpoint S) : e.cut (lost r) = e := by rw [h]; rfl
  have set (e : Endpoint S) (flight : Role → Bytes) :
      (c.cut lost).set r e flight = (c.set r e flight).cut lost := by rw [← set_cut, whole]
  cases left : (c.ends r).todo with
  | nil => simp only [Channel.write, ends_cut, whole, left]
  | cons piece todo =>
    simp only [Channel.write, ends_cut, whole, left]
    split
    · exact set _ _
    · exact set _ _

theorem write_of_lost (h : lost r = true) : (c.cut lost).write r = c.cut lost := by
  have none_left : ((c.cut lost).ends r).todo = [] := by rw [ends_cut, h]; rfl
  simp only [Channel.write, none_left]

theorem deliver_cut (r : Role) (n : Nat) : (c.cut lost).deliver r n = (c.deliver r n).cut lost := by
  unfold Channel.deliver
  simp only [ends_cut, session_cut, pump_cut, pid_cut, flight_cut]
  split_ifs
  · exact set_cut
  · rfl

theorem pump_cut' (r : Role) (q : PathId) (item : Option Inbound) :
    (c.cut lost).pump r q item = (c.pump r q item).cut lost := by
  unfold Channel.pump
  simp only [ends_cut, pump_cut, pid_cut, flight_cut]
  split_ifs
  · rfl
  · exact set_cut

theorem todo_after (r : Role) {a : Act} (receives : ∀ data, a ≠ .send data) (other : a ≠ .write)
    (q : Role) : ((c.after (r, a)).ends q).todo = (c.ends q).todo := by
  have set {e : Endpoint S} {flight : Role → Bytes} (same : e.todo = (c.ends r).todo) :
      ((c.set r e flight).ends q).todo = (c.ends q).todo := by
    by_cases hq : q = r
    · subst hq; simpa [Channel.set] using same
    · rw [ends_set_of_ne hq]
  cases a with
  | send data => exact (receives data rfl).elim
  | write => exact (other rfl).elim
  | deliver n =>
    simp only [Channel.after, Channel.deliver]
    split_ifs
    · exact set rfl
    · rfl
  | pump p item =>
    simp only [Channel.after, Channel.pump]
    split_ifs
    · rfl
    · exact set rfl
  | take now s => exact set (todo_take ..)
  | feed => exact set (todo_feed _)

namespace Cancellable

/-- The channel of `u` behaves as a channel `c` without cancelling that never writes the rest of a
cancelled frame. -/
structure Mimics (u : Cancellable S) (c : Channel S) : Prop where
  same : u.channel = c.cut u.lost
  kept : ∀ r, u.lost r = true → (c.ends r).todo ≠ []

theorem Mimics.start (c : Channel S) : c.cancellable.Mimics c where
  same := rfl
  kept := nofun

theorem Mimics.still {u : Cancellable S} {c' : Channel S} (h : u.Mimics c) {channel : Channel S}
    (same : channel = c'.cut u.lost)
    (todo : ∀ r, u.lost r = true → (c'.ends r).todo = (c.ends r).todo) :
    Mimics { u with channel } c' where
  same := same
  kept r hr := by
    rw [todo r hr]
    exact h.kept r hr

theorem Mimics.cancel {u : Cancellable S} (h : u.Mimics c) (r : Role) :
    (u.after (r, .cancel)).Mimics c := by
  obtain ⟨channel, lost⟩ := u
  obtain ⟨same, kept⟩ := h
  dsimp only at same kept
  subst same
  let loses : Bool := lost r || !((c.cut lost).ends r).todo.isEmpty
  have twice : ((c.ends r).cut (lost r)).cut true = (c.ends r).cut loses := by
    cases hl : lost r with
    | true => simp [loses, hl, Endpoint.cut]
    | false =>
      cases left : (c.ends r).todo with
      | cons piece todo => simp [loses, hl, Endpoint.cut, left]
      | nil => simp only [Endpoint.cut_of_idle left]
  have ends : Function.update (c.cut lost).ends r (((c.cut lost).ends r).cut true) =
      fun q => (c.ends q).cut (Function.update lost r loses q) := by
    funext q
    by_cases hq : q = r
    · subst hq; simp [twice]
    · simp [hq]
  refine ⟨by simp only [Cancellable.after, Channel.set, ends]; rfl, fun q hq => ?_⟩
  have hq : Function.update lost r loses q = true := hq
  by_cases same : q = r
  · subst same
    intro left
    have none_lost : lost q = false := by
      by_contra was
      exact kept q (by simpa using was) left
    simp [loses, none_lost, Endpoint.cut, left] at hq
  · rw [Function.update_of_ne same] at hq
    exact kept q hq

/-- Every act with cancelling can be matched by one without that sends the same payload. -/
theorem Mimics.after {u : Cancellable S} (h : u.Mimics c) (m : Role × Act)
    (first : resumes [m] u = false) : ∃ ms : List (Role × Channel.Act),
      (u.after m).Mimics (c.run ms) ∧ ∀ r, payloads r ms = payloads r (plain [m]) := by
  obtain ⟨r, act⟩ := m
  cases act with
  | cancel => exact ⟨[], h.cancel r, fun _ => rfl⟩
  | plain a =>
    have alike (receives : ∀ data, a ≠ .send data) (other : a ≠ .write)
        (same : (c.cut u.lost).after (r, a) = (c.after (r, a)).cut u.lost) :
        (u.after (r, .plain a)).Mimics (c.run [(r, a)]) :=
      h.still (by rw [h.same]; exact same) fun q _ => todo_after r receives other q
    cases a with
    | send data =>
      have whole : u.lost r = false := by simpa [resumes] using first
      refine ⟨[(r, .send data)], h.still ?_ fun q lost => ?_, fun _ => rfl⟩
      · have sent : ((c.cut u.lost).ends r).send data = ((c.ends r).send data).cut (u.lost r) := by
          rw [ends_cut, whole]; rfl
        rw [h.same, Channel.after, sent]
        exact set_cut
      · have apart : q ≠ r := by
          rintro rfl
          rw [whole] at lost
          cases lost
        exact congrArg Endpoint.todo (ends_set_of_ne apart)
    | write =>
      -- once a frame has been cut off there is no piece left to write
      cases lost : u.lost r with
      | true =>
        refine ⟨[], h.still ?_ fun _ _ => rfl, fun _ => rfl⟩
        rw [h.same]
        exact write_of_lost lost
      | false =>
        refine ⟨[(r, .write)], h.still ?_ fun q hq => ?_, fun _ => rfl⟩
        · rw [h.same]
          exact write_cut lost
        · have apart : q ≠ r := by
            rintro rfl
            rw [lost] at hq
            cases hq
          exact congrArg Endpoint.todo (ends_write_of_ne apart)
    | deliver n =>
      exact ⟨_, alike (by simp) (by simp) (deliver_cut r n), fun _ => rfl⟩
    | pump q item => exact ⟨_, alike (by simp) (by simp) (pump_cut' r q item), fun _ => rfl⟩
    | take now s =>
      refine ⟨_, alike (by simp) (by simp) ?_, fun _ => rfl⟩
      simp only [Channel.after, ends_cut, take_cut]
      exact set_cut
    | feed =>
      refine ⟨_, alike (by simp) (by simp) ?_, fun _ => rfl⟩
      simp only [Channel.after, ends_cut, feed_cut]
      exact set_cut

end Cancellable

/-! ### The bytes that are written -/

section

variable {e e' : Endpoint S} {pid : PathId} {v w : View}

theorem joined_of_works (h : e.Works pid v) {x : Exchange S} {hash : PathHash}
    (state : e.session.state = .connected x pid hash) : e.session.Joined x pid where
  state := ⟨hash, state⟩
  winner := h.flows.winner
  sound raised := by rw [h.flows.seated.heard]; exact raised

theorem tx_of_state (h : e.Works pid v) (k : e'.Works pid w)
    (same : e'.session.state = e.session.state) : w.transport.tx = v.transport.tx := by
  obtain ⟨x, hash, state, carries⟩ := h.engine
  obtain ⟨x', hash', state', carries'⟩ := k.engine
  rw [same, state] at state'
  cases state'
  rw [carries.unique carries']

theorem session_take (e : Endpoint S) (now : Nat) (s : Entropy) :
    (e.take now s).session = (e.session.take now s).2.1 := by
  unfold Endpoint.take
  split <;> rename_i he <;> rw [he]

theorem session_feed (e : Endpoint S) : e.feed.session = e.session.feed.2 := by
  unfold Endpoint.feed
  split <;> rename_i he <;> rw [he]

theorem tx_take {now : Nat} {s : Entropy} (h : e.Works pid v) (k : (e.take now s).Works pid w) :
    w.transport.tx = v.transport.tx := by
  obtain ⟨x, hash, state, carries⟩ := h.engine
  obtain ⟨x', hash', state', carries'⟩ := k.engine
  have takes := (joined_of_works h state).takes now s
  rw [session_take] at state'
  generalize (e.session.take now s).1 = answer at takes
  generalize (e.session.take now s).2.1 = y at state' takes
  have asked : x' = (Engine.processFrame pid now x s).2.1 := by
    cases takes <;> cases state' <;> rfl
  subst asked
  exact carries.tx_processFrame carries'

theorem tx_feed (h : e.Works pid v) (k : e.feed.Works pid w) :
    w.transport.tx = v.transport.tx := by
  obtain ⟨x, hash, state, carries⟩ := h.engine
  obtain ⟨x', hash', state', carries'⟩ := k.engine
  have feeds := (joined_of_works h state).feeds
  rw [session_feed] at state'
  generalize e.session.feed.1 = answer at feeds
  generalize e.session.feed.2 = y at state' feeds
  cases feeds with
  | waits | stopped | ended =>
    have same := state.symm.trans state'
    cases same
    rw [carries.unique carries']
  | fed | lost =>
    cases state'
    exact carries.tx_addChunk carries'

theorem row_send {rx : Lane} {first data : Bytes} (h : e.Works pid v) (k : (e.send data).Works pid w)
    (row : Passage S rx v.transport.tx (first ++ (e.written ++ e.todo).flatten) [] e.given)
    (short : data.length ≤ Limit.frame - 17) (bound : e.given.length < 2 ^ 64 - 3) :
    Passage S rx w.transport.tx (first ++ ((e.send data).written ++ (e.send data).todo).flatten) []
      (e.send data).given := by
  obtain ⟨x, hash, state, carries⟩ := h.engine
  obtain ⟨x', hash', state', carries'⟩ := k.engine
  by_cases idle : e.todo = []
  · have fits := Lane.fits_ulp short
    obtain ⟨y, created, advanced⟩ := carries.createFrame (row.fresh bound) fits
    have result : e.session.send data =
        (.ok (Bytes.chunks Limit.piece (v.transport.tx.framed S (.ulp data))),
          { e.session with state := .connected y pid hash }) := by
      simp only [Session.send, state, h.flows.quiet, created]
      rfl
    have sent : e.send data = { e with
        session := { e.session with state := .connected y pid hash }
        todo := Bytes.chunks Limit.piece (v.transport.tx.framed S (.ulp data))
        given := e.given ++ [data] } := by
      simp only [Endpoint.send, idle, if_true, result]
    rw [sent] at state' ⊢
    cases state'
    rw [advanced.unique carries']
    have whole := Bytes.flatten_chunks (by decide : Limit.piece ≠ 0)
      (v.transport.tx.framed S (.ulp data))
    simpa [idle, whole, List.append_assoc] using row.send fits
  · have still : e.send data = e := by rw [Endpoint.send, if_neg idle]
    rw [still] at state' ⊢
    have same := state.symm.trans state'
    cases same
    rw [carries.unique carries']
    exact row

end

/-- Both ends work. Behind the bytes that were on their way at first, each end has written, or is
writing, the frames of the payloads it has been given. -/
structure Charted (c : Channel S) (v : Role → View) (rx : Role → Lane) (first : Role → Bytes) :
    Prop where
  carried : c.Carried v
  row : ∀ r, Passage S (rx r) (v r).transport.tx
    (first r ++ ((c.ends r).written ++ (c.ends r).todo).flatten) [] (c.ends r).given

theorem pid_after (c : Channel S) (m : Role × Act) : (c.after m).pid = c.pid := by
  obtain ⟨r, act⟩ := m
  cases act with
  | send | take | feed => rfl
  | write =>
    simp only [Channel.after, Channel.write]
    split
    · rfl
    · split <;> rfl
  | deliver n =>
    simp only [Channel.after, Channel.deliver]
    split_ifs <;> rfl
  | pump q item =>
    simp only [Channel.after, Channel.pump]
    split_ifs <;> rfl

theorem ends_after_of_ne (c : Channel S) {q : Role} (hq : q ≠ r) (act : Act) :
    (c.after (r, act)).ends q = c.ends q := by
  cases act with
  | send | take | feed => exact ends_set_of_ne hq
  | write => exact ends_write_of_ne hq
  | deliver n =>
    simp only [Channel.after, Channel.deliver]
    split_ifs
    · exact ends_set_of_ne hq
    · rfl
  | pump p item =>
    simp only [Channel.after, Channel.pump]
    split_ifs
    · rfl
    · exact ends_set_of_ne hq

variable {v : Role → View} {rx : Role → Lane} {first : Role → Bytes}

theorem Charted.row_after (h : c.Charted v rx first) {act : Act} {w : Role → View}
    (k : (c.after (r, act)).Carried w) (short : ∀ data ∈ payload r (r, act), data.length ≤ Limit.frame - 17)
    (bound : (c.ends r).given.length < 2 ^ 64 - 3) :
    Passage S (rx r) (w r).transport.tx (first r ++ (((c.after (r, act)).ends r).written ++
      ((c.after (r, act)).ends r).todo).flatten) [] ((c.after (r, act)).ends r).given := by
  have row := h.row r
  have works := h.carried.works r
  have works' := k.works r
  rw [pid_after] at works'
  have ends_set (e : Endpoint S) (flight : Role → Bytes) : (c.set r e flight).ends r = e :=
    Function.update_self ..
  -- every act but a send keeps the lane, and the pieces written and left together
  have alike {e' : Endpoint S} (he : (c.after (r, act)).ends r = e')
      (tx : (w r).transport.tx = (v r).transport.tx)
      (lists : e'.written ++ e'.todo = (c.ends r).written ++ (c.ends r).todo)
      (given : e'.given = (c.ends r).given) :
      Passage S (rx r) (w r).transport.tx (first r ++ (((c.after (r, act)).ends r).written ++
        ((c.after (r, act)).ends r).todo).flatten) [] ((c.after (r, act)).ends r).given := by
    rw [he, lists, given, tx]
    exact row
  have quiet {e' : Endpoint S} (he : (c.after (r, act)).ends r = e')
      (state : e'.session.state = (c.ends r).session.state) :
      (w r).transport.tx = (v r).transport.tx := tx_of_state works (he ▸ works') state
  cases act with
  | send data =>
    have he : (c.after (r, .send data)).ends r = (c.ends r).send data := ends_set ..
    rw [he] at works' ⊢
    exact row_send works works' row (short data (by simp [payload])) bound
  | write =>
    cases left : (c.ends r).todo with
    | nil =>
      have he : (c.after (r, .write)).ends r = c.ends r := by
        simp only [Channel.after, Channel.write, left]
      exact alike he (quiet he rfl) rfl rfl
    | cons piece todo =>
      have he : (c.after (r, .write)).ends r =
          { c.ends r with todo, written := (c.ends r).written ++ [piece] } := by
        simp only [Channel.after, Channel.write, left, works.flows.openWinnerWrite]
        exact ends_set ..
      exact alike he (quiet he rfl) (by simp [left]) rfl
  | deliver n =>
    by_cases reading : (c.ends r).session.race.isReading c.pid = true
    · have he : (c.after (r, .deliver n)).ends r =
          (c.ends r).pump c.pid (some (.chunk ((c.flight r.peer).take n))) := by
        simp only [Channel.after, Channel.deliver, if_pos reading]
        exact ends_set ..
      exact alike he (quiet he rfl) rfl rfl
    · have he : (c.after (r, .deliver n)).ends r = c.ends r := by
        simp only [Channel.after, Channel.deliver, if_neg reading]
      exact alike he (quiet he rfl) rfl rfl
  | pump q item =>
    by_cases mine : q = c.pid ∧ item ≠ none
    · have he : (c.after (r, .pump q item)).ends r = c.ends r := by
        simp only [Channel.after, Channel.pump, if_pos mine]
      exact alike he (quiet he rfl) rfl rfl
    · have he : (c.after (r, .pump q item)).ends r = (c.ends r).pump q item := by
        simp only [Channel.after, Channel.pump, if_neg mine]
        exact ends_set ..
      exact alike he (quiet he rfl) rfl rfl
  | take now s =>
    have he : (c.after (r, .take now s)).ends r = (c.ends r).take now s := ends_set ..
    rw [he] at works'
    refine alike he (tx_take works works') ?_ (given_take ..)
    rw [written_take, todo_take]
  | feed =>
    have he : (c.after (r, .feed)).ends r = (c.ends r).feed := ends_set ..
    rw [he] at works'
    refine alike he (tx_feed works works') ?_ (given_feed _)
    rw [written_feed, todo_feed]

theorem Charted.after (h : c.Charted v rx first) (m : Role × Act)
    (short : ∀ r, ∀ data ∈ payload r m, data.length ≤ Limit.frame - 17)
    (bound : ∀ r, (c.ends r).given.length < 2 ^ 64 - 3) : ∃ w, (c.after m).Charted w rx first := by
  obtain ⟨w, carried⟩ := h.carried.after m short bound
  refine ⟨w, carried, fun q => ?_⟩
  obtain ⟨r, act⟩ := m
  by_cases hq : q = r
  · subst hq
    exact h.row_after carried (short q) (bound q)
  · have works' := carried.works q
    rw [pid_after, ends_after_of_ne c hq] at works'
    rw [ends_after_of_ne c hq, tx_of_state (h.carried.works q) works' rfl]
    exact h.row q

theorem Charted.run (h : c.Charted v rx first) (ms : List (Role × Act))
    (short : ∀ r, ∀ data ∈ payloads r ms, data.length ≤ Limit.frame - 17)
    (bound : ∀ r, (c.ends r).given.length + (payloads r ms).length < 2 ^ 64 - 3) :
    ∃ w, (c.run ms).Charted w rx first := by
  induction ms generalizing c v with
  | nil => exact ⟨v, h⟩
  | cons m ms ih =>
    have split (r : Role) : payloads r (m :: ms) = payload r m ++ payloads r ms := List.flatMap_cons
    obtain ⟨w, h'⟩ := h.after m
      (fun r data hd => short r data (split r ▸ List.mem_append_left _ hd))
      (fun r => by have := bound r; omega)
    apply ih h'
    · intro r data hd
      exact short r data (split r ▸ List.mem_append_right _ hd)
    · intro r
      have total := bound r
      have grown := given_after c m r
      rw [split, List.length_append] at total
      omega

namespace Cancellable

/-- The payloads whose frames have been accepted completely. -/
def whole (u : Cancellable S) (r : Role) : List Bytes :=
  if u.lost r then (u.channel.ends r).given.dropLast else (u.channel.ends r).sent

theorem Mimics.run {u : Cancellable S} (h : u.Mimics c) (ms : List (Role × Act))
    (last : resumes ms u = false) : ∃ ms' : List (Role × Channel.Act),
      (u.run ms).Mimics (c.run ms') ∧ ∀ r, payloads r ms' = payloads r (plain ms) := by
  induction ms generalizing u c with
  | nil => exact ⟨[], h, fun _ => rfl⟩
  | cons m ms ih =>
    simp only [resumes, Bool.or_eq_false_iff] at last
    obtain ⟨now, mimics, sent⟩ := h.after m (by simp only [resumes, last.1, Bool.or_false])
    obtain ⟨later, mimics', sent'⟩ := ih mimics last.2
    refine ⟨now ++ later, ?_, fun r => ?_⟩
    · have both : c.run (now ++ later) = (c.run now).run later := List.foldl_append
      rw [both]
      exact mimics'
    · have heads : plain (m :: ms) = plain [m] ++ plain ms := List.filterMap_append (l := [m])
      rw [heads]
      simp only [payloads, List.flatMap_append] at sent sent' ⊢
      rw [sent, sent']

section

variable {u : Cancellable S}

theorem Mimics.ends (h : u.Mimics c) (r : Role) : u.channel.ends r = (c.ends r).cut (u.lost r) := by
  rw [h.same]; rfl

theorem Mimics.whole (h : u.Mimics c) (r : Role) : u.whole r = (c.ends r).sent := by
  unfold Cancellable.whole
  rw [h.ends]
  cases lost : u.lost r with
  | true => rw [if_pos rfl, given_cut, Endpoint.sent, if_neg (h.kept r lost)]
  | false => rfl

theorem Mimics.drained (h : u.Mimics c) (r : Role) (kept : u.lost r.peer = false)
    (drained : u.channel.Drained r) : c.Drained r := by
  unfold Channel.Drained at drained ⊢
  rw [h.ends, h.ends, kept] at drained
  have flight : u.channel.flight = c.flight := by rw [h.same]; rfl
  have whole : (c.ends r.peer).cut false = c.ends r.peer := rfl
  simpa only [session_cut, flight, whole] using drained

end

end Cancellable

end Channel

end PathRace
