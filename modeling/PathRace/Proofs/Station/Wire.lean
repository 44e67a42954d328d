import PathRace.Proofs.Chronicle
import PathRace.Proofs.Station.Pipe

/-! What a station passes to its sink, and what its reader makes of the incoming messages. Accepted
chunks go out in order, one message each, followed after a close by one close message with the reason of
the first close; incoming messages are read up to the first that ends the path (`speaks_and_hears`). -/

namespace PathRace

namespace Station

/-- The reader reads nothing after it. -/
def Arrival.isLast : Arrival → Bool
  | .packet (.binary _) | .packet .ping | .packet .pong => false
  | .packet .text | .packet (.close _) | .failed _ | .over => true

/-- What the reader makes of an arrival. -/
def Arrival.yields : Arrival → Option Inbound
  | .packet (.binary data) => some (.chunk data)
  | .packet .text => some (.failed .unexpectedText)
  | .failed fault => some (.failed fault)
  | .packet (.close _) | .over => some .ended
  | .packet .ping | .packet .pong => none

/-- The chunks that have come in, and the failure that ended them, if there is one. -/
def readout : List Arrival → List Inbound
  | [] => []
  | .packet (.binary data) :: rest => .chunk data :: readout rest
  | .packet .ping :: rest | .packet .pong :: rest => readout rest
  | .packet .text :: _ => [.failed .unexpectedText]
  | .failed fault :: _ => [.failed fault]
  | .packet (.close _) :: _ | .over :: _ => []

/-- The specification of the reader's answer: the end once the path has been closed or the stream has
ended. -/
def answerTo (notes : List Note) (arrival : Option Arrival) : Option Inbound :=
  if (firstReason notes).isSome || (arrivals notes).any Arrival.isLast then some .ended
  else arrival.bind Arrival.yields

/-- When the sender stops by itself: a message was not sent, or there is no writer and nothing left to
send. -/
def LeftAlone (notes : List Note) : Prop :=
  (∃ size, .finished size false ∈ notes) ∨ .droppedWriter ∈ notes ∧ chunks notes = accepted notes

/-- What an entry must satisfy after the entries before it. -/
def Note.Follows (before : List Note) : Note → Prop
  | .accepted _ => firstReason before = none
  | .handed (.binary _) => firstReason before = none
  | .handed p => ∃ r, firstReason before = some r ∧ p = Packet.farewell r
  | .stopped => (firstReason before).isSome = true ∨ LeftAlone before
  | .asked arrival answer => answer = answerTo before arrival
  | _ => True

/-- The sink has been given chunks only, or chunks and then one close message with the reason of the
first close. -/
def Said (notes : List Note) (sender : Sender) : Prop :=
  if sender = .running then handed notes = (chunks notes).map .binary
  else ∃ r, firstReason notes = some r ∧ handed notes = (chunks notes).map .binary ++ [Packet.farewell r]

/-- The state of the station agrees with the history. -/
structure Recalls (notes : List Note) (s : Station) : Prop where
  queue : accepted notes = chunks notes ++ s.outbox
  reason : s.closed = firstReason notes
  dropped : s.writerHeld = false → .droppedWriter ∈ notes
  said : Said notes s.sender
  ended : s.closed = none → s.streaming = !(arrivals notes).any Arrival.isLast
  items : items notes = readout (arrivals notes)
  follows : Chronicle Note.Follows notes

variable {notes : List Note} {n : Note} {s t : Station} {m : Manned}

/-! ### One more entry -/

theorem firstReason_append (notes more : List Note) :
    firstReason (notes ++ more) = (firstReason notes).or (firstReason more) := List.findSome?_append ..

theorem firstReason_concat (notes : List Note) (n : Note) :
    firstReason (notes ++ [n]) = (firstReason notes).or n.reason? := by
  rw [firstReason_append, firstReason, firstReason, List.findSome?_singleton]

theorem arrivals_cons (n : Note) (notes : List Note) : arrivals (n :: notes) =
    if n.reason?.isSome then [] else n.arrival?.toList ++ arrivals notes := by
  unfold arrivals
  rw [List.takeWhile_cons]
  cases n.reason? with
  | none => cases h : n.arrival? <;> simp [h]
  | some r => rfl

theorem arrivals_concat (notes : List Note) (n : Note) : arrivals (notes ++ [n]) =
    if (firstReason (notes ++ [n])).isSome then arrivals notes
    else arrivals notes ++ n.arrival?.toList := by
  induction notes with
  | nil =>
    rw [List.nil_append, arrivals_cons, firstReason, List.findSome?_singleton]
    cases n.reason? <;> simp [arrivals]
  | cons first rest ih =>
    rw [List.cons_append, arrivals_cons, arrivals_cons, ih, firstReason, firstReason,
      List.findSome?_cons]
    cases first.reason? with
    | none =>
      -- the first note does not close the path, so it counts, and the rest decides about the last
      by_cases closed : ((rest ++ [n]).findSome? Note.reason?).isSome = true
      · simp only [closed, if_true]
      · simp only [closed]
        exact (List.append_assoc ..).symm
    | some r => rfl

theorem chunk?_of_handed? (h : n.handed? = none) : n.chunk? = none := by
  cases n <;> first | rfl | cases h

theorem filterMap_concat_none {β : Type} {f : Note → Option β} (h : f n = none) (notes : List Note) :
    (notes ++ [n]).filterMap f = notes.filterMap f := by
  simp [List.filterMap_append, h]

theorem Said.concat {sender : Sender} (h : Said notes sender) (handed : n.handed? = none) :
    Said (notes ++ [n]) sender := by
  unfold Said at h ⊢
  rw [Station.handed, Station.chunks, filterMap_concat_none handed,
    filterMap_concat_none (chunk?_of_handed? handed)]
  split_ifs at h ⊢
  · exact h
  · obtain ⟨r, reason, said⟩ := h
    exact ⟨r, by rw [firstReason_concat, reason]; rfl, said⟩

theorem closed_close (reason : CloseReason) (s : Station) :
    (s.close reason).closed = s.closed.or (some reason) := by
  unfold close
  cases s.closed <;> rfl

theorem hear_of_ended (h : Socket.hasEnded s = true) (arrival : Option Arrival) :
    s.hear arrival = (some .ended, s) := if_pos h

theorem hear_of_open (h : Socket.hasEnded s = false) (arrival : Option Arrival) :
    (s.hear arrival).1 = arrival.bind Arrival.yields ∧
      (s.hear arrival).2.streaming = !arrival.any Arrival.isLast := by
  have streaming : s.streaming = true := by
    rw [Socket.hasEnded, Bool.or_eq_false_iff] at h
    simpa using h.2
  unfold hear
  rw [if_neg (by simp [h])]
  obtain _ | (_ | _ | _ | _ | _) | _ | _ := arrival <;> exact ⟨rfl, by simp [streaming, Arrival.isLast]⟩

theorem items_asked (arrival : Option Arrival) :
    items [.asked arrival (arrival.bind Arrival.yields)] = readout arrival.toList := by
  obtain _ | (_ | _ | _ | _ | _) | _ | _ := arrival <;> rfl

theorem readout_cons (a : Arrival) (l : List Arrival) :
    readout (a :: l) = readout [a] ++ if a.isLast then [] else readout l := by
  obtain (_ | _ | _ | _ | _) | _ | _ := a <;> rfl

theorem readout_append (l more : List Arrival) :
    readout (l ++ more) = readout l ++ if l.any Arrival.isLast then [] else readout more := by
  induction l with
  | nil => rfl
  | cons first rest ih =>
    rw [List.cons_append, readout_cons, readout_cons first rest, ih, List.any_cons]
    cases first.isLast with
    | true => simp
    | false => simp

/-! ### What the reader is told -/

theorem firstReason_asked (notes : List Note) (arrival : Option Arrival) (answer : Option Inbound) :
    firstReason (notes ++ [.asked arrival answer]) = firstReason notes := by
  rw [firstReason_concat]
  exact Option.or_none

theorem arrivals_asked (notes : List Note) (arrival : Option Arrival) (answer : Option Inbound) :
    arrivals (notes ++ [.asked arrival answer]) =
      if (firstReason notes).isSome then arrivals notes else arrivals notes ++ arrival.toList := by
  rw [arrivals_concat, firstReason_asked]
  rfl

theorem items_answerTo (h : items notes = readout (arrivals notes)) (arrival : Option Arrival) :
    items (notes ++ [.asked arrival (answerTo notes arrival)]) =
      readout (arrivals (notes ++ [.asked arrival (answerTo notes arrival)])) := by
  rw [items_append, h, arrivals_asked, answerTo]
  cases firstReason notes with
  | some r => exact List.append_nil _
  | none =>
    simp only [Option.isSome_none, Bool.false_or, Bool.false_eq_true, if_false, readout_append]
    cases (arrivals notes).any Arrival.isLast with
    | true => rfl
    | false => simpa using items_asked arrival

namespace Recalls

theorem step (h : Recalls notes s) (follows : n.Follows notes)
    (queue : accepted (notes ++ [n]) = chunks (notes ++ [n]) ++ t.outbox)
    (reason : t.closed = s.closed.or n.reason?)
    (dropped : t.writerHeld = false → s.writerHeld = false ∨ n = .droppedWriter)
    (said : Said (notes ++ [n]) t.sender) (quiet : n.arrival? = none ∧ n.item? = none)
    (streaming : t.streaming = s.streaming) : Recalls (notes ++ [n]) t := by
  have same : arrivals (notes ++ [n]) = arrivals notes := by
    rw [arrivals_concat, quiet.1]
    simp
  refine ⟨queue, ?_, ?_, said, ?_, ?_, h.follows.concat follows⟩
  · rw [firstReason_concat, reason, h.reason]
  · intro gone
    obtain gone | rfl := dropped gone
    · exact List.mem_append_left _ (h.dropped gone)
    · exact List.mem_append_right _ List.mem_cons_self
  · intro unclosed
    rw [reason, Option.or_eq_none_iff] at unclosed
    rw [same, streaming]
    exact h.ended unclosed.1
  · rw [same, Station.items, filterMap_concat_none quiet.2]
    exact h.items

theorem silent (h : Recalls notes s) (same : t.outbox = s.outbox ∧ t.closed = s.closed ∧
    t.writerHeld = s.writerHeld ∧ t.streaming = s.streaming) (said : Said notes t.sender) :
    Recalls (notes ++ []) t := by
  obtain ⟨outbox, closed, writer, streaming⟩ := same
  rw [List.append_nil]
  exact ⟨outbox ▸ h.queue, closed.trans h.reason, writer ▸ h.dropped, said,
    fun unclosed => streaming.trans (h.ended (closed ▸ unclosed)), h.items, h.follows⟩

theorem aside (h : Recalls notes s) (follows : n.Follows notes) (accepts : n.accepted? = none)
    (handed : n.handed? = none) (reason : t.closed = s.closed.or n.reason?)
    (dropped : t.writerHeld = false → s.writerHeld = false ∨ n = .droppedWriter)
    (quiet : n.arrival? = none ∧ n.item? = none)
    (same : t.outbox = s.outbox ∧ t.sender = s.sender ∧ t.streaming = s.streaming) :
    Recalls (notes ++ [n]) t := by
  obtain ⟨outbox, sender, streaming⟩ := same
  apply h.step follows _ reason dropped _ quiet streaming
  · rw [accepted, chunks, filterMap_concat_none accepts, filterMap_concat_none (chunk?_of_handed? handed),
      outbox]
    exact h.queue
  · rw [sender]
    exact h.said.concat handed

theorem take (h : Recalls notes s) (unclosed : s.closed = none) (chunk : Bytes) :
    Recalls (notes ++ [.accepted chunk]) (s.take chunk) := by
  have follows : Note.Follows notes (.accepted chunk) := h.reason.symm.trans unclosed
  refine h.step follows ?_ (Option.or_none).symm .inl (h.said.concat rfl) ⟨rfl, rfl⟩ rfl
  rw [accepted_append, chunks_append, h.queue]
  simp [accepted, chunks, Note.accepted?, Note.chunk?, Station.take]

theorem handOver (h : Recalls notes s) (running : s.sender = .running) (unclosed : s.closed = none)
    {first : Bytes} {rest : List Bytes} (outbox : s.outbox = first :: rest) :
    Recalls (notes ++ [.handed (.binary first)]) { s with outbox := rest } := by
  have follows : Note.Follows notes (.handed (.binary first)) := h.reason.symm.trans unclosed
  have said := h.said
  refine h.step follows ?_ (Option.or_none).symm .inl ?_ ⟨rfl, rfl⟩ rfl
  · rw [accepted_append, chunks_append, h.queue, outbox]
    simp [accepted, chunks, Note.accepted?, Note.chunk?]
  · simp only [Said, running, if_true] at said ⊢
    rw [handed_append, chunks_append, said, List.map_append]
    rfl

theorem finish (h : Recalls notes s) (size : Nat) (sent : Bool) :
    Recalls (notes ++ [.finished size sent]) { s.drain size with sending := none } :=
  h.aside trivial rfl rfl (Option.or_none).symm .inl ⟨rfl, rfl⟩ ⟨rfl, rfl, rfl⟩

theorem stop (h : Recalls notes s) (running : s.sender = .running)
    (cause : s.closed.isSome = true ∨ LeftAlone notes) (now : Nat) (farewell : Uptake) :
    Recalls (notes ++ (s.stop now farewell).1) (s.stop now farewell).2 := by
  -- the path is closed first, so that there is a reason when the close message goes out
  have follows : Note.Follows notes .stopped := by rwa [h.reason] at cause
  have stopped : Recalls (notes ++ [.stopped]) (s.close .normal) :=
    h.aside follows rfl rfl (closed_close ..) .inl ⟨rfl, rfl⟩ ⟨rfl, rfl, rfl⟩
  have reason : firstReason (notes ++ [.stopped]) = some (s.closed.getD .normal) := stopped.reason.symm
  have told : Note.Follows (notes ++ [.stopped]) (.handed (Packet.farewell (s.closed.getD .normal))) :=
    ⟨_, reason, rfl⟩
  have said := stopped.said
  have still : (s.close .normal).sender = .running := running
  simp only [Said, still, if_true] at said
  let spoken : List Note := [.handed (Packet.farewell (s.closed.getD .normal))]
  have apart : (s.stop now farewell).1 = [.stopped] ++ spoken := rfl
  have accepts : accepted spoken = [] := rfl
  have carries : chunks spoken = [] := rfl
  rw [apart, ← List.append_assoc]
  refine stopped.step told ?_ (Option.or_none).symm .inl ?_ ⟨rfl, rfl⟩ rfl
  · rw [accepted_append _ spoken, chunks_append _ spoken, accepts, carries, List.append_nil, List.append_nil]
    exact stopped.queue
  · have silent : (s.stop now farewell).2.sender ≠ .running := by
      cases farewell <;> simp [Station.stop]
    rw [Said, if_neg silent]
    refine ⟨_, by rw [firstReason_concat, reason]; rfl, ?_⟩
    rw [chunks_append _ spoken, carries, List.append_nil, handed_append _ spoken, said]
    rfl

theorem conclude (h : Recalls notes s) (running : s.sender = .running) (now size : Nat)
    (chunk farewell : Uptake) : Recalls (notes ++ (s.conclude now size chunk farewell).1)
      (s.conclude now size chunk farewell).2 := by
  cases chunk with
  | sent => exact h.finish size true
  | pending => exact h.silent ⟨rfl, rfl, rfl, rfl⟩ h.said
  | refused =>
    have failed : LeftAlone (notes ++ [.finished size false]) := .inl ⟨size, by simp⟩
    have stopped := (h.finish size false).stop running (.inr failed) now farewell
    rw [List.append_assoc] at stopped
    exact stopped

theorem turned {now : Nat} {r : List Note × Station} (h : Recalls notes s) (turned : Turned now s r) :
    Recalls (notes ++ r.1) r.2 := by
  cases turned with
  | rests => rwa [List.append_nil]
  | @parts sender parting still =>
    refine h.silent ⟨rfl, rfl, rfl, rfl⟩ ?_
    have said := h.said
    rw [Said, if_neg parting] at said
    rwa [Said, if_neg still]
  | stops running cause =>
    refine h.stop running (cause.imp_right fun ⟨_, outbox, gone⟩ => ?_) ..
    have queue := h.queue
    rw [outbox, List.append_nil] at queue
    exact .inr ⟨h.dropped gone, queue.symm⟩
  | concludes running => exact h.conclude running ..
  | @begins first rest chunk farewell running unclosed _ outbox =>
    have concluded := (h.handOver running unclosed outbox).conclude running now first.length chunk farewell
    rw [List.append_assoc] at concluded
    exact concluded

theorem hasEnded_eq (h : Recalls notes s) :
    Socket.hasEnded s = ((firstReason notes).isSome || (arrivals notes).any Arrival.isLast) := by
  rw [Socket.hasEnded, h.reason]
  cases first : firstReason notes with
  | some r => rfl
  | none => rw [h.ended (h.reason.trans first), Bool.not_not]

theorem hear_answer (h : Recalls notes s) (arrival : Option Arrival) :
    (s.hear arrival).1 = answerTo notes arrival := by
  rw [answerTo, ← h.hasEnded_eq]
  by_cases ended : Socket.hasEnded s = true
  · rw [if_pos ended, hear_of_ended ended]
  · rw [if_neg ended, (hear_of_open (Bool.eq_false_iff.2 ended) arrival).1]

theorem hear_streaming (h : Recalls notes s) (unclosed : s.closed = none) (arrival : Option Arrival) :
    (s.hear arrival).2.streaming = !(arrivals notes ++ arrival.toList).any Arrival.isLast := by
  have streaming := h.ended unclosed
  rw [List.any_append]
  by_cases ended : Socket.hasEnded s = true
  · have past : (arrivals notes).any Arrival.isLast = true := by
      simpa [Socket.hasEnded, unclosed, streaming] using ended
    rw [hear_of_ended ended, streaming, past]
    rfl
  · have goes_on : (arrivals notes).any Arrival.isLast = false := by
      simpa [Socket.hasEnded, unclosed, streaming] using ended
    rw [(hear_of_open (Bool.eq_false_iff.2 ended) arrival).2, goes_on]
    cases arrival <;> simp

theorem hear (h : Recalls notes s) (arrival : Option Arrival) :
    Recalls (notes ++ [.asked arrival (s.hear arrival).1]) (s.hear arrival).2 := by
  obtain ⟨streaming, heard, same⟩ := s.hear_eq arrival
  constructor
  case queue =>
    rw [accepted, chunks, filterMap_concat_none (f := Note.accepted?) rfl,
      filterMap_concat_none (f := Note.chunk?) rfl, same]
    exact h.queue
  case reason =>
    rw [firstReason_asked, same]
    exact h.reason
  case dropped =>
    rw [same]
    exact fun gone => List.mem_append_left _ (h.dropped gone)
  case said =>
    rw [same]
    exact h.said.concat rfl
  case ended =>
    intro unclosed
    rw [same] at unclosed
    have reason : firstReason notes = none := h.reason.symm.trans unclosed
    rw [arrivals_asked, reason]
    exact h.hear_streaming unclosed arrival
  case items =>
    rw [h.hear_answer arrival]
    exact items_answerTo h.items arrival
  case follows => exact h.follows.concat (h.hear_answer arrival)

theorem act (h : Recalls notes m.station) (d : Deed) :
    Recalls (notes ++ (m.act d).1) (m.act d).2.station := by
  have acted := m.acted d
  generalize m.act d = r at acted ⊢
  cases acted with
  | refused | returns => exact h.aside trivial rfl rfl Option.or_none.symm .inl ⟨rfl, rfl⟩ ⟨rfl, rfl, rfl⟩
  | done unclosed =>
    rw [List.append_cons]
    exact (h.take unclosed _).aside trivial rfl rfl Option.or_none.symm .inl ⟨rfl, rfl⟩ ⟨rfl, rfl, rfl⟩
  | waits unclosed => exact h.take unclosed _
  | rests => rwa [List.append_nil]
  | closes => exact h.aside trivial rfl rfl (closed_close ..) .inl ⟨rfl, rfl⟩ ⟨rfl, rfl, rfl⟩
  | dropsWriter =>
    exact h.aside trivial rfl rfl Option.or_none.symm (fun _ => .inr rfl) ⟨rfl, rfl⟩ ⟨rfl, rfl, rfl⟩
  | dropsReader => exact h.silent ⟨rfl, rfl, rfl, rfl⟩ h.said
  | turns turned => exact h.turned turned
  | @hears arrival _ _ same => exact same ▸ h.hear arrival

end Recalls

namespace Manned

theorem recalls (marks : Watermarks) (deeds : List Deed) :
    Recalls (after marks deeds).1 (after marks deeds).2.station := by
  induction deeds using List.reverseRecOn with
  | nil => exact ⟨rfl, rfl, fun gone => (nomatch gone), rfl, fun _ => rfl, rfl, .nil⟩
  | append_singleton deeds d ih =>
    rw [after_concat]
    exact ih.act d

end Manned

/-- A chunk that is not sent closes the path. -/
theorem Turned.normal {now size : Nat} {r : List Note × Station} (turned : Turned now s r)
    (h : .finished size false ∈ r.1) : s.closed = none ∧ firstReason r.1 = some .normal := by
  cases turned with
  | rests | parts => cases h
  | stops => simp [Station.stop] at h
  | @concludes _ chunk _ _ unclosed | @begins _ _ chunk _ _ unclosed =>
    cases chunk with
    | sent | pending => simp [Station.conclude] at h
    | refused => exact ⟨unclosed, rfl⟩

theorem normal_of_failed (marks : Watermarks) {deeds : List Deed} {size : Nat}
    (failed : .finished size false ∈ (Manned.after marks deeds).1) :
    firstReason (Manned.after marks deeds).1 = some .normal := by
  induction deeds using List.reverseRecOn with
  | nil => cases failed
  | append_singleton deeds d ih =>
    rw [Manned.after_concat] at failed ⊢
    rw [firstReason_append]
    obtain earlier | later := List.mem_append.1 failed
    · rw [ih earlier]
      rfl
    · have reason := (Manned.recalls marks deeds).reason
      have acted := (Manned.after marks deeds).2.acted d
      generalize (Manned.after marks deeds).2.act d = r at acted later ⊢
      cases acted with
      | turns turned =>
        obtain ⟨unclosed, normal⟩ := turned.normal later
        rw [← reason, unclosed]
        exact normal
      | refused | done | waits | rests | returns | closes | dropsWriter | dropsReader | hears =>
        simp at later

/-- For any use of a path and any behaviour of its sink: the sink is given the accepted chunks in order
and then at most one close message, with the reason of the first close. The sender closes the path by
itself, as `normal`, if a chunk was not sent, or if there is no writer and nothing left to send
(`Note.Follows`). The reader gets what the stream yields before the path is closed, up to the first end
or failure, and nothing after that. An end of a socket behaves in this way, and the packets on its wire
are a prefix of those given to its sink. -/
theorem speaks_and_hears (marks : Watermarks) :
    (∀ deeds, let notes := (Manned.after marks deeds).1
      (handed notes = (chunks notes).map .binary ∨ ∃ r, firstReason notes = some r ∧
        handed notes = (chunks notes).map .binary ++ [Packet.farewell r]) ∧
      chunks notes <+: accepted notes ∧
      (∀ size, .finished size false ∈ notes → firstReason notes = some .normal) ∧
      items notes = readout (arrivals notes) ∧
      Chronicle Note.Follows notes) ∧
    ∀ (e : End) (x : Socket) (ops : List Socket.Op), x.station? e = some (.new marks) →
      ∃ deeds, (ops.foldl (Socket.Watched.act e) (.start x)).Mans e (Manned.after marks deeds).1
        (Manned.after marks deeds).2 := by
  refine ⟨fun deeds => ?_, fun e x ops h => Socket.Watched.is_manned h ops⟩
  have recalls := Manned.recalls marks deeds
  refine ⟨?_, ⟨_, recalls.queue.symm⟩, fun _ => normal_of_failed marks, recalls.items,
    recalls.follows⟩
  have said := recalls.said
  unfold Said at said
  split_ifs at said
  · exact .inl said
  · exact .inr said

/-- The writer is dropped while one chunk is being sent and another waits; the path is then closed with
a protocol error, and the close message says so. -/
theorem speaks_and_hears_late :
    let x := Socket.withPeer 16 .standard
    let ops : List Socket.Op := [.write 0 [1], .write 0 [2], .send 0, .dropWriter, .close .protocolError,
      .send 0, .elsewhere .peerReceive, .send 0]
    let v := ops.foldl (Socket.Watched.act .a) (.start x)
    x.station? .a = some (.new .standard) ∧
      v.wire = [.binary [1], Packet.farewell .protocolError] ∧
      ∃ deeds, v.Mans .a (Manned.after .standard deeds).1 (Manned.after .standard deeds).2 := by
  intro x ops v
  have fresh : x.station? .a = some (.new .standard) := rfl
  exact ⟨fresh, by decide, (speaks_and_hears .standard).2 .a x ops fresh⟩

/-- Dropping the writer before the path is closed does not make the close normal. -/
theorem not_normal_of_dropped : ¬∀ (marks : Watermarks) (deeds : List Deed) (r : CloseReason),
    (∃ before reason later, (Manned.after marks deeds).1 = before ++ .closed reason :: later ∧
      firstReason before = none ∧ .droppedWriter ∈ before) →
    Packet.farewell r ∈ handed (Manned.after marks deeds).1 → r = .normal := by
  intro normal
  have late := normal .standard [.write 0 [1], .write 0 [2], .turn 0 .pending .pending, .dropWriter,
    .close .protocolError, .turn 0 .pending .sent] .protocolError
    ⟨[.accepted [1], .returned (.ok ()), .accepted [2], .returned (.ok ()), .handed (.binary [1]),
      .droppedWriter], .protocolError, _, rfl, rfl, by simp⟩ (by decide)
  cases late

end Station

end PathRace
