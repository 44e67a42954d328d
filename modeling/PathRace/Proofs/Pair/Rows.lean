import PathRace.Proofs.Pair.Sound

/-! The row of messages that a device seals on the lane of a path. What a turn adds to a row carries the
lane's next number (`Deed.writes`); what a turn takes from the peer's row is the message with the number
that the lane expects (`Deed.got`). -/

namespace PathRace

namespace Message

def payload? : Message → Option Bytes
  | ulp data => some data
  | _ => none

end Message

def payloads (row : List Message) : List Bytes := row.filterMap Message.payload?

@[simp] theorem payloads_append (a b : List Message) : payloads (a ++ b) = payloads a ++ payloads b :=
  List.filterMap_append

namespace Lane

instance (m : Message) : Decidable (Fits m) :=
  inferInstanceAs (Decidable (m.encode.length + Limit.tagSize ≤ Limit.frame))

theorem frame_send_toOption {S : Suite} {l : Lane} (hl : l.isExhausted = false) (m : Message) :
    (l.send S m).frame.toOption = if Fits m then some (l.framed S m) else none := by
  split_ifs with hm
  · rw [send_of_fits hl hm]
    rfl
  · have long : Limit.frame < m.encode.length + Limit.tagSize := not_le.1 hm
    simp [send, hl, long, Except.toOption]

end Lane

namespace Reassembly

theorem length_of_next {r r' : Reassembly} {c : Bytes} (h : r.next = (.ok (some c), r')) :
    c.length ≤ Limit.frame := by
  unfold next at h
  split_ifs at h with start long whole
  · simp at h
  · simp at h
  · simp at h
  · obtain ⟨rfl, -⟩ : _ = c ∧ _ := by simpa using h
    rw [List.length_take]
    exact (min_le_left ..).trans (not_lt.1 long)

end Reassembly

namespace Stage

/-- The lanes of the stage belong to this path at this end. -/
def On (r : Role) (pid : PathId) : Stage → Prop
  | awaitingAuth t .. | ready t | nominated t => ∃ keys, t.Of r pid keys
  | awaitingHello | awaitingAuthHello .. | failed => True

/-- The counter of the sending lane is the number of messages in the row. -/
def Sent (row : List Message) : Stage → Prop
  | awaitingHello | awaitingAuthHello .. => row = []
  | awaitingAuth t .. | ready t | nominated t => t.tx.counter.toNat = row.length
  | failed => True

/-- What a path has taken from the row of its peer. There are payloads among it only after the
nomination. -/
def Got (row : List Message) (got : List Bytes) : Stage → Prop
  | awaitingAuth t .. | ready t =>
    t.rx.counter.toNat ≤ row.length ∧ payloads (row.take t.rx.counter.toNat) = []
  | nominated t => t.rx.counter.toNat ≤ row.length ∧ payloads (row.take t.rx.counter.toNat) = got
  | awaitingHello | awaitingAuthHello .. | failed => True

theorem Got.append {row : List Message} {got : List Bytes} {stage : Stage} (h : stage.Got row got)
    (added : List Message) : stage.Got (row ++ added) got := by
  cases stage with
  | awaitingHello | awaitingAuthHello | failed => trivial
  | awaitingAuth | ready | nominated =>
    obtain ⟨count, taken⟩ := h
    refine ⟨by rw [List.length_append]; omega, ?_⟩
    rw [List.take_append_of_le_length count]
    exact taken

theorem take_of_next {row : List Message} {l l' : Lane} {c : Bytes} {m : Message} {S : Suite}
    (opened : l.receive S c = (.ok m, l')) (next : row[l.counter.toNat]? = some m) :
    l'.counter.toNat ≤ row.length ∧
      payloads (row.take l'.counter.toNat) =
        payloads (row.take l.counter.toNat) ++ m.payload?.toList := by
  obtain ⟨fresh, -, rfl⟩ := Lane.receive_ok opened
  obtain ⟨below, -⟩ := List.getElem?_eq_some_iff.1 next
  rw [Lane.counter_advance fresh]
  refine ⟨below, ?_⟩
  rw [List.take_add_one, next, payloads_append]
  congr 1

end Stage

namespace Exchange

variable {S : Suite} {d : Device} {r : Role} {pid : PathId} {c : Call} {old new : Strand}
  {used : List Sealing} {o : Option Outcome}

theorem Deed.on (h : Deed S d pid c old new used o) (role : d.role = r) (on : old.stage.On r pid) :
    new.stage.On r pid := by
  cases h with
  | fed => exact on
  | refused | exhausted => trivial
  | nominated =>
    obtain ⟨keys, t⟩ := on
    exact ⟨keys, t.advance_tx⟩
  | sent =>
    obtain ⟨keys, t⟩ := on
    exact ⟨keys, t.send _⟩
  | took next advance =>
    cases advance with
    | answered =>
      rw [role]
      exact ⟨_, Transport.of_start ..⟩
    | proven opened agreed start =>
      rw [role] at start
      subst start
      exact ⟨_, (Transport.of_start ..).advance_tx⟩
    | confirmed opened | nominated opened | carried opened =>
      obtain ⟨keys, t⟩ := on
      exact ⟨keys, t.receive opened⟩

def created : Call → Option Outcome → List Bytes
  | .createFrame data, some _ => [data]
  | _, _ => []

/-- What a call adds to the row of its path. Messages under the auth key are not counted. -/
structure Writes (r : Role) (pid : PathId) (row added : List Message) (c : Call) (old new : Stage)
    (used : List Sealing) (o : Option Outcome) : Prop where
  nonces : ∀ u ∈ used, ∃ i m, u.nonce = Nonce.make pid (.outbound r) i ∧ u.plaintext = m.encode ∧
    (m.key? = none → (row ++ added)[i.toNat]? = some m)
  sent : new.Sent (row ++ added)
  created : (payloads added).filter (fun data => Lane.Fits (.ulp data)) = created c o
  since : payloads added ≠ [] → old.isNominated = true

theorem nonces_of_lane {row : List Message} {l : Lane} (m : Message) (path : l.pid = pid)
    (direction : l.direction = .outbound r) (count : l.counter.toNat = row.length) :
    ∀ u ∈ [l.sealing m.encode], ∃ i m', u.nonce = Nonce.make pid (.outbound r) i ∧
      u.plaintext = m'.encode ∧ (m'.key? = none → (row ++ [m])[i.toNat]? = some m') := by
  intro u hu
  obtain rfl := List.mem_singleton.1 hu
  refine ⟨l.counter, m, by rw [← path, ← direction]; rfl, rfl, fun _ => ?_⟩
  rw [count, List.getElem?_concat_length]

theorem writes_nothing {row : List Message} {old new : Stage} {c : Call} {o : Option Outcome}
    (sent : new.Sent row) (none : created c o = []) : Writes r pid row [] c old new [] o where
  nonces _ hu := absurd hu List.not_mem_nil
  sent := by rwa [List.append_nil]
  created := none.symm
  since some := absurd rfl some

theorem Deed.writes {row : List Message} (h : Deed S d pid c old new used o) (role : d.role = r)
    (on : old.stage.On r pid) (sent : old.stage.Sent row) :
    ∃ added, Writes r pid row added c old.stage new.stage used o := by
  cases h with
  | fed => exact ⟨[], writes_nothing sent rfl⟩
  | refused | exhausted => exact ⟨[], writes_nothing trivial rfl⟩
  | @nominated inbox t nominator fresh =>
    obtain ⟨keys, lanes⟩ := on
    refine ⟨[.nominate], nonces_of_lane .nominate lanes.txPid lanes.txDirection sent, ?_, rfl,
      absurd rfl⟩
    simpa [Stage.Sent, Lane.counter_advance fresh] using sent
  | @sent inbox t data o frame =>
    obtain ⟨keys, lanes⟩ := on
    cases hl : t.tx.isExhausted with
    | true =>
      rw [Lane.send_of_exhausted hl] at frame ⊢
      subst frame
      exact ⟨[], writes_nothing sent rfl⟩
    | false =>
      rw [Lane.frame_send_toOption hl] at frame
      rw [(Lane.used_send hl _).1, (Lane.used_send hl _).2]
      refine ⟨[.ulp data], nonces_of_lane (.ulp data) lanes.txPid lanes.txDirection sent, ?_, ?_,
        fun _ => rfl⟩
      · simpa [Stage.Sent, Lane.counter_advance hl] using sent
      · subst frame
        by_cases fits : Lane.Fits (.ulp data) <;> simp [payloads, Message.payload?, fits, Exchange.created]
  | took next advance =>
    cases advance with
    | @answered secret own challenge _ _ _ opened agreed =>
      obtain rfl : row = [] := sent
      refine ⟨[], fun u hu => ⟨0, .authHello challenge own (S.publicKey secret), ?_, ?_, ?_⟩, rfl, rfl,
        absurd rfl⟩
      all_goals obtain rfl := List.mem_singleton.1 hu
      · simp [Lane.sealing, Lane.nonce, Device.authLane, Lane.start, role]
      · rfl
      · simp [Message.key?]
    | @proven _ _ challenge _ _ _ _ t opened agreed start =>
      obtain rfl : row = [] := sent
      subst start
      have direction : Direction.outbound d.role = .outbound r := by rw [role]
      refine ⟨[.auth challenge], nonces_of_lane (.auth challenge) rfl direction rfl, ?_, rfl, absurd rfl⟩
      rw [Stage.Sent, Lane.counter_advance (Transport.isExhausted_start_tx ..)]
      rfl
    | confirmed | nominated | carried =>
      exact ⟨[], writes_nothing sent rfl⟩

/-- The next frame that opens on the path is the next message in the row of the peer. -/
def Reads (S : Suite) (d : Device) (pid : PathId) (old : Strand) (row : List Message) : Prop :=
  ∀ inbox ciphertext m lane lane', old.inbox.next = (.ok (some ciphertext), inbox) →
    inbound S d pid old.stage = some lane → lane.receive S ciphertext = (.ok m, lane') →
    m.key? = none → row[lane.counter.toNat]? = some m ∧ Lane.Fits m

theorem Deed.got {row : List Message} {got : List Bytes} (h : Deed S d pid c old new used o)
    (reads : ∀ now s, c = .processFrame pid now s → Reads S d pid old row)
    (before : old.stage.Got row got) (none : ∀ t, old.stage = .ready t → got = []) :
    new.stage.Got row (got ++ (o.bind (·.ulp)).toList) := by
  cases h with
  | @fed inbox stage chunk => simpa using before
  | refused | exhausted => trivial
  | nominated =>
    obtain rfl := none _ rfl
    exact before
  | @sent inbox t data o frame =>
    have quiet : (o.bind (·.ulp)) = .none := by
      rw [frame]
      cases (t.tx.send S (.ulp data)).frame.toOption <;> rfl
    rw [quiet, Option.toList_none, List.append_nil]
    exact before
  | took next advance =>
    have reads := reads _ _ rfl
    cases advance with
    | answered => exact ⟨Nat.zero_le _, rfl⟩
    | proven opened agreed start =>
      subst start
      exact ⟨Nat.zero_le _, rfl⟩
    | confirmed opened | carried opened =>
      obtain ⟨item, -⟩ := reads _ _ _ _ _ next rfl opened rfl
      obtain ⟨count, taken⟩ := Stage.take_of_next opened item
      exact ⟨count, by rw [taken, before.2]; rfl⟩
    | nominated opened =>
      obtain rfl := none _ rfl
      obtain ⟨item, -⟩ := reads _ _ _ _ _ next rfl opened rfl
      obtain ⟨count, taken⟩ := Stage.take_of_next opened item
      exact ⟨count, by rw [taken, before.2]; rfl⟩

theorem Deed.carries {row : List Message} (h : Deed S d pid c old new used o)
    (reads : ∀ now s, c = .processFrame pid now s → Reads S d pid old row) {data : Bytes}
    (ho : o.bind (·.ulp) = some data) : (∃ now s, c = .processFrame pid now s) ∧
      old.stage.isNominated = true ∧ new.stage.isNominated = true ∧ Lane.Fits (.ulp data) := by
  cases h with
  | fed | refused | exhausted | nominated => cases ho
  | @sent inbox t data o frame =>
    rw [frame] at ho
    cases hf : (t.tx.send S (.ulp data)).frame.toOption with
    | none => simp [hf] at ho
    | some f => simp [hf, Outcome.frame, Outcome.none] at ho
  | took next advance =>
    cases advance with
    | answered | proven | confirmed | nominated => cases ho
    | carried opened =>
      obtain rfl := Option.some.inj ho
      exact ⟨⟨_, _, rfl⟩, rfl, rfl, (reads _ _ rfl _ _ _ _ _ next rfl opened rfl).2⟩

theorem inbound_on {stage : Stage} {lane : Lane} (h : inbound S d pid stage = some lane)
    (role : d.role = r) (on : stage.On r pid) : lane.pid = pid ∧ lane.direction = .outbound r.peer := by
  cases stage with
  | awaitingHello | awaitingAuthHello =>
    obtain rfl := Option.some.inj h
    exact ⟨rfl, by rw [role]; rfl⟩
  | awaitingAuth | ready | nominated =>
    obtain rfl := Option.some.inj h
    obtain ⟨keys, lanes⟩ := on
    exact ⟨lanes.rxPid, lanes.rxDirection⟩
  | failed => cases h

end Exchange

end PathRace
