import PathRace.Proofs.Station.Manned

/-! A socket end over a pipe is a station in use: its sink takes what the pipe takes, and its input is
what comes out of the pipe (`Socket.Watched.is_manned`). -/

namespace PathRace

namespace Socket

variable {e : End} {x : Socket} {s : Station}

theorem write_offered (h : x.station? e = some s) (now : Nat) (chunk : Bytes) :
    x.write e now (.offered chunk) =
      if s.closed.isSome then (.failed .closed, x)
      else (match Stall.begin now (s.take chunk).backlog with
        | none => Progress.ok
        | some stall => .inr (.stalled stall), x.put e (s.take chunk)) := by
  unfold Socket.write
  rw [h]
  dsimp only
  split_ifs
  · rfl
  · unfold Station.take
    dsimp only
    split <;> simp_all

theorem write_stalled (h : x.station? e = some s) (now : Nat) (stall : Stall) :
    x.write e now (.stalled stall) =
      (match stall.look s.closed.isSome s.backlog with
        | .inl result => .inl result
        | .inr stall => .inr (.stalled stall), x) := by
  unfold Socket.write
  rw [h]
  dsimp only
  split <;> simp_all

/-- What the incoming stream of an end yields next. -/
def arrival? (e : End) (x : Socket) : Option Station.Arrival :=
  match (x.incoming e).dropWhile (·.isIdle) with
  | p :: _ => some (.packet p)
  | [] => if x.isGone e.other then some (.failed resetFault) else none

theorem read_eq (h : x.station? e = some s) : (x.read e).1 = (s.hear (x.arrival? e)).1 ∧
    (x.read e).2.station? e = some (s.hear (x.arrival? e)).2 := by
  unfold Socket.read Station.hear arrival?
  rw [h]
  dsimp only
  by_cases ended : hasEnded s = true
  · rw [if_pos ended, if_pos ended]
    exact ⟨rfl, h⟩
  · rw [if_neg ended, if_neg ended]
    cases waiting : (x.incoming e).dropWhile (·.isIdle) with
    | nil =>
      dsimp only
      split_ifs with gone
      · exact ⟨rfl, by simp⟩
      · exact ⟨rfl, by simpa using h⟩
    | cons p rest =>
      have busy : p.isIdle = false := by
        have first := List.head?_dropWhile_not (·.isIdle) (x.incoming e)
        rwa [waiting] at first
      cases p with
      | ping | pong => cases busy
      | binary data => exact ⟨rfl, by simpa using h⟩
      | text => exact ⟨rfl, by simp⟩
      | close words => exact ⟨rfl, by simp⟩

/-- What the pipe does with the close message of an end. -/
def farewell (e : End) (s : Station) (x : Socket) : Station.Uptake :=
  if x.isMute e s then .refused else if x.narrow then .pending else .sent

theorem part_eq (e : End) (now : Nat) (s : Station) (x : Socket) :
    (x.part e now s).station? e = some (s.stop now (x.farewell e s)).2 := by
  have mute : x.isMute e (s.close .normal) = x.isMute e s := rfl
  unfold part Station.stop farewell
  dsimp only
  rw [mute]
  split_ifs <;> simp

theorem outgoing_part (e : End) (now : Nat) (s : Station) (x : Socket) :
    (x.part e now s).outgoing e = x.outgoing e ++
      if x.farewell e s = .sent then [Packet.farewell (s.closed.getD .normal)] else [] := by
  have mute : x.isMute e (s.close .normal) = x.isMute e s := rfl
  unfold part farewell
  dsimp only
  rw [mute]
  by_cases heard : x.isMute e s = true
  · simp [heard]
  · by_cases narrow : x.narrow = true
    · simp [heard, narrow]
    · simp [heard, narrow, Station.close]

/-- The packets on the wire are a prefix of those given to the sink. Refused packets are not on it, and
a close message may have to wait. -/
def Spoken (s : Station) (wire handed : List Packet) : Prop :=
  match s.sender with
  | .running => handed = wire
  | .parting _ false => ∃ r, s.closed = some r ∧ handed = wire ++ [Packet.farewell r]
  | _ => wire <+: handed

theorem Spoken.isPrefix {wire handed : List Packet} (h : Spoken s wire handed) : wire <+: handed := by
  unfold Spoken at h
  split at h
  · exact h ▸ List.prefix_rfl
  · obtain ⟨r, -, rfl⟩ := h
    exact List.prefix_append ..
  · exact h

theorem spoken_part {wire handed : List Packet} (said : wire <+: handed)
    (heard : x.isMute e s = false → handed = wire) (now : Nat) :
    Spoken (s.stop now (x.farewell e s)).2
      (wire ++ ((x.part e now s).outgoing e).drop (x.outgoing e).length)
      (handed ++ [Packet.farewell (s.closed.getD .normal)]) := by
  rw [outgoing_part, List.drop_left]
  unfold farewell Station.stop Spoken
  by_cases mute : x.isMute e s = true
  · simpa [mute] using said.trans (List.prefix_append ..)
  · rw [Bool.not_eq_true] at mute
    obtain rfl := heard mute
    by_cases narrow : x.narrow = true
    · simp [mute, narrow, Station.close]
    · simp [mute, narrow]

/-- A turn of the sender of an end is a turn of its station. -/
def SendsAs (e : End) (now : Nat) (s : Station) (x y : Socket) : Prop :=
  ∃ chunk farewell, y.station? e = some (s.turn now chunk farewell).2 ∧
    ∀ wire handed, Spoken s wire handed →
      Spoken (s.turn now chunk farewell).2 (wire ++ (y.outgoing e).drop (x.outgoing e).length)
        (handed ++ Station.handed (s.turn now chunk farewell).1)

theorem sendsAs_part {t : Station} {now : Nat} (chunk : Station.Uptake) (before : List Station.Note)
    (running : s.sender = .running) (quiet : x.isMute e t = false → Station.handed before = [])
    (turn : s.turn now chunk (x.farewell e t) =
      (before ++ (t.stop now (x.farewell e t)).1, (t.stop now (x.farewell e t)).2)) :
    SendsAs e now s x (x.part e now t) := by
  refine ⟨chunk, x.farewell e t, by rw [turn]; exact part_eq .., fun wire handed said => ?_⟩
  obtain rfl : handed = wire := by simpa only [Spoken, running] using said
  have parted := spoken_part (x := x) (e := e) (s := t) (List.prefix_append handed (Station.handed before))
    (fun heard => by rw [quiet heard, List.append_nil]) now
  have stopped : Station.handed (t.stop now (x.farewell e t)).1 =
      [Packet.farewell (t.closed.getD .normal)] := rfl
  rw [turn]
  simpa only [Station.handed_append, stopped, List.append_assoc] using parted

theorem sendsAs_running {t : Station} {y : Socket} {now : Nat} (chunk : Station.Uptake)
    (notes : List Station.Note) (before : s.sender = .running) (after : t.sender = .running)
    (turn : s.turn now chunk .sent = (notes, t)) (station : y.station? e = some t)
    (carried : (y.outgoing e).drop (x.outgoing e).length = Station.handed notes) :
    SendsAs e now s x y := by
  refine ⟨chunk, .sent, by rw [turn]; exact station, fun wire handed said => ?_⟩
  obtain rfl : handed = wire := by simpa only [Spoken, before] using said
  rw [turn, carried]
  simp only [Spoken, after]

theorem sendsAs_parting {limit : Nat} {spoken : Bool}
    (sender : s.sender = .parting limit spoken) (now : Nat) {y : Socket}
    (left : y.station? e = some { s with sender := .done } ∧ (y.outgoing e).drop (x.outgoing e).length = [] ∨
      spoken = false ∧ y = (x.put e { s with sender := .parting limit true }).transmit e
        (Packet.farewell (s.closed.getD .normal))) : SendsAs e now s x y := by
  obtain ⟨station, silent⟩ | ⟨rfl, rfl⟩ := left
  · refine ⟨.sent, .sent, by simpa [Station.turn, sender] using station, fun wire handed said => ?_⟩
    have said := said.isPrefix
    simpa [Station.turn, sender, silent, Spoken, Station.handed] using said
  · refine ⟨.sent, .pending, by simp [Station.turn, sender], fun wire handed said => ?_⟩
    simp only [Spoken, sender] at said
    obtain ⟨r, closed, rfl⟩ := said
    simp [Station.turn, sender, closed, Spoken, Station.handed]

theorem sendsAs_next {first : Bytes} {rest : List Bytes} (running : s.sender = .running)
    (unclosed : ¬s.closed.isSome = true) (sending : s.sending = none) (outbox : s.outbox = first :: rest)
    (now : Nat) : SendsAs e now s x
      (if x.isMute e { s with outbox := rest } then
        x.part e now ({ s with outbox := rest }.drain first.length)
      else if x.narrow then
        (x.put e { s with outbox := rest, sending := some first.length }).transmit e (.binary first)
      else (x.put e ({ s with outbox := rest }.drain first.length)).transmit e (.binary first)) := by
  split_ifs with mute narrow
  -- the other end no longer listens, but the sink has been given the chunk
  · apply sendsAs_part .refused [.handed (.binary first), .finished first.length false] running
    · intro heard
      exact absurd mute (Bool.eq_false_iff.1 heard)
    · simp [Station.turn, running, unclosed, sending, outbox, Station.conclude, Station.drain]
  · apply sendsAs_running (t := { s with outbox := rest, sending := some first.length }) .pending
      [.handed (.binary first)] running running
    · simp [Station.turn, running, unclosed, sending, outbox, Station.conclude]
    · simp
    · simp [Station.handed, Station.Note.handed?]
  · apply sendsAs_running (t := { s with outbox := rest }.drain first.length) .sent
      [.handed (.binary first), .finished first.length true] running running
    · simp [Station.turn, running, unclosed, sending, outbox, Station.conclude, Station.drain]
    · simp
    · simp [Station.handed, Station.Note.handed?]

/-- The sender of an end acts as a station, and puts on the wire only what it has given to the sink. -/
theorem send_eq (h : x.station? e = some s) {now : Nat} (can : x.canSend e now = true) :
    SendsAs e now s x (x.send e now) := by
  unfold send
  unfold canSend at can
  rw [h] at can ⊢
  dsimp only at can ⊢
  split
  next sender => rw [sender] at can; cases can
  next limit spoken sender =>
    apply sendsAs_parting sender
    rw [sender] at can
    by_cases first : ((x.outgoing e).isEmpty && !spoken) = true
    · rw [if_pos first]
      exact .inr ⟨by simp_all, rfl⟩
    · rw [if_neg first]
      by_cases free : ((x.outgoing e).isEmpty || x.isMute e s) = true
      · rw [if_pos free]
        exact .inl ⟨by simp, by simp⟩
      · have late : limit ≤ now := by simpa [free] using can
        rw [if_neg free, if_pos late]
        exact .inl ⟨by simp, by simp⟩
  next running =>
    split
    next closed =>
      apply sendsAs_part .sent [] running fun _ => rfl
      simp [Station.turn, running, closed]
    next unclosed =>
      split
      next size sending =>
        split
        next =>
          apply sendsAs_running (t := { s.drain size with sending := none }) .sent [.finished size true]
            running running
          · simp [Station.turn, running, unclosed, sending, Station.conclude]
          · simp
          · simp [Station.handed, Station.Note.handed?]
        next =>
          apply sendsAs_part .refused [.finished size false] running fun _ => rfl
          simp [Station.turn, running, unclosed, sending, Station.conclude]
      next sending =>
        split
        next outbox =>
          split
          next held =>
            apply sendsAs_running .sent [] running running
            · simp [Station.turn, running, unclosed, sending, outbox, held]
            · exact h
            · simp [Station.handed]
          next dropped =>
            apply sendsAs_part .sent [] running fun _ => rfl
            simp [Station.turn, running, unclosed, sending, outbox, dropped]
        next first rest outbox => exact sendsAs_next running unclosed sending outbox now

/-! ### What the other end does -/

/-- The acts at the other end. -/
inductive Remote
  | write (now : Nat) (w : Writing)
  | send (now : Nat)
  | read
  | close (reason : CloseReason)
  | dropWriter
  | dropReader
  | peerSend (p : Packet)
  | peerReceive
  | peerDrop

def Remote.act (e : End) (x : Socket) : Remote → Socket
  | .write now w => (x.write e.other now w).2
  | .send now => x.send e.other now
  | .read => (x.read e.other).2
  | .close reason => x.close e.other reason
  | .dropWriter => x.dropWriter e.other
  | .dropReader => x.dropReader e.other
  | .peerSend p => (x.peerSend p).2
  | .peerReceive => x.peerReceive.2
  | .peerDrop => x.peerDrop

theorem station?_update_of_ne {e' : End} (h : e' ≠ e) (f : Station → Station) (x : Socket) :
    (x.update e f).station? e' = x.station? e' := by
  unfold update
  split
  · rfl
  · simp [h]

theorem station?_write_of_ne {e' : End} (h : e' ≠ e) (now : Nat) (w : Writing) (x : Socket) :
    (x.write e now w).2.station? e' = x.station? e' := by
  unfold Socket.write
  split
  · rfl
  · split
    · split_ifs
      · rfl
      · dsimp only
        split <;> simp [h]
    · split <;> rfl

theorem station?_read_of_ne {e' : End} (h : e' ≠ e) (x : Socket) :
    (x.read e).2.station? e' = x.station? e' := by
  unfold read
  split
  · rfl
  · split
    · rfl
    · split
      · simp
      · simp [h]
      · simp [h]
      · split <;> simp [h]

theorem station?_send_of_ne {e' : End} (h : e' ≠ e) (now : Nat) (x : Socket) :
    (x.send e now).station? e' = x.station? e' := by
  cases hs : x.station? e with
  | none => simp [send, hs]
  | some s =>
    have moves := moves_send hs now
    generalize x.send e now = y at moves ⊢
    cases moves with
    | still => rfl
    | drained | ends | carried | speaks | late => simp [h]
    | parts =>
      unfold part
      dsimp only
      split_ifs <;> simp [h]

theorem station?_peerSend (e : End) (p : Packet) (x : Socket) :
    (x.peerSend p).2.station? e = x.station? e := by
  obtain ⟨narrow, near, far | peer, toNear, toFar⟩ := x
  · rfl
  · unfold peerSend peer?
    dsimp only
    split_ifs
    · rfl
    · cases e <;> rfl

theorem station?_peerReceive (e : End) (x : Socket) : x.peerReceive.2.station? e = x.station? e := by
  obtain ⟨narrow, near, far | peer, toNear, toFar⟩ := x
  · rfl
  · unfold peerReceive peer?
    dsimp only
    split <;> cases e <;> rfl

theorem station?_peerDrop (e : End) (x : Socket) : x.peerDrop.station? e = x.station? e := by
  obtain ⟨narrow, near, far | peer, toNear, toFar⟩ := x
  · rfl
  · cases e <;> rfl

theorem Remote.station?_act (o : Remote) (e : End) (x : Socket) :
    (o.act e x).station? e = x.station? e := by
  have h : e ≠ e.other := by cases e <;> simp [End.other]
  cases o with
  | write now w => exact station?_write_of_ne h ..
  | send now => exact station?_send_of_ne h ..
  | read => exact station?_read_of_ne h ..
  | close | dropWriter | dropReader => exact station?_update_of_ne h ..
  | peerSend p => exact station?_peerSend ..
  | peerReceive => exact station?_peerReceive ..
  | peerDrop => exact station?_peerDrop ..

theorem Spoken.of_same {t : Station} {wire handed : List Packet} (h : Spoken s wire handed)
    (sender : t.sender = s.sender) (closed : ∀ r, s.closed = some r → t.closed = some r) :
    Spoken t wire handed := by
  unfold Spoken at h ⊢
  rw [sender]
  split at h
  · exact h
  · obtain ⟨r, known, said⟩ := h
    exact ⟨r, closed r known, said⟩
  · exact h

/-! ### An end in use -/

/-- The acts at the watched end or at the other one. -/
inductive Op
  /-- A new write replaces one that still waits. -/
  | write (now : Nat) (chunk : Bytes)
  | look (now : Nat)
  | send (now : Nat)
  | read
  | close (reason : CloseReason)
  | dropWriter
  | dropReader
  | elsewhere (o : Remote)

/-- A socket, the write that waits at one of its ends, and the results and packets of that end so far. -/
structure Watched where
  socket : Socket
  waiting : Option Stall
  results : List (Except PathFault Unit)
  answers : List (Option Inbound)
  wire : List Packet

namespace Watched

def start (x : Socket) : Watched := ⟨x, none, [], [], []⟩

def wrote (v : Watched) : Progress × Socket → Watched
  | (.inl result, x) => { v with socket := x, waiting := none, results := v.results ++ [result] }
  | (.inr (.stalled stall), x) => { v with socket := x, waiting := some stall }
  | (.inr (.offered _), x) => { v with socket := x, waiting := none }

def act (e : End) (v : Watched) : Op → Watched
  | .write now chunk => v.wrote (v.socket.write e now (.offered chunk))
  | .look now =>
    match v.waiting with
    | none => v
    | some stall =>
      if v.socket.canWrite e now (.stalled stall) then v.wrote (v.socket.write e now (.stalled stall))
      else v
  | .send now =>
    if v.socket.canSend e now then
      { v with socket := v.socket.send e now, wire := v.wire ++ v.socket.sent e now }
    else v
  | .read => { v with socket := (v.socket.read e).2, answers := v.answers ++ [(v.socket.read e).1] }
  | .close reason => { v with socket := v.socket.close e reason }
  | .dropWriter => { v with socket := v.socket.dropWriter e }
  | .dropReader => { v with socket := v.socket.dropReader e }
  | .elsewhere o => { v with socket := o.act e v.socket }

/-- The watched end is the station of `m`, its results are those in the history, and the packets on the
wire are a prefix of those given to the sink. -/
structure Mans (e : End) (v : Watched) (notes : List Station.Note) (m : Station.Manned) : Prop where
  station : v.socket.station? e = some m.station
  waiting : v.waiting = m.waiting
  results : v.results = Station.results notes
  answers : v.answers = Station.answers notes
  spoken : Spoken m.station v.wire (Station.handed notes)

variable {v : Watched} {notes : List Station.Note} {m : Station.Manned}

theorem Mans.aside (h : v.Mans e notes m) {v' : Watched} {m' : Station.Manned} {n : List Station.Note}
    (station : v'.socket.station? e = some m'.station) (waiting : v'.waiting = m'.waiting)
    (results : v'.results = v.results ++ Station.results n)
    (answers : v'.answers = v.answers ++ Station.answers n) (wire : v'.wire = v.wire)
    (handed : Station.handed n = []) (sender : m'.station.sender = m.station.sender)
    (closed : ∀ r, m.station.closed = some r → m'.station.closed = some r) :
    v'.Mans e (notes ++ n) m' where
  station := station
  waiting := waiting
  results := by rw [results, h.results, Station.results_append]
  answers := by rw [answers, h.answers, Station.answers_append]
  spoken := by
    rw [Station.handed_append, handed, List.append_nil, wire]
    exact h.spoken.of_same sender closed

theorem Mans.returned (h : v.Mans e notes m) {n : List Station.Note} {y : Socket} {t : Station}
    {result : Except PathFault Unit} (station : y.station? e = some t)
    (same : t.sender = m.station.sender ∧ t.closed = m.station.closed)
    (results : Station.results n = [result]) (answers : Station.answers n = [])
    (handed : Station.handed n = []) : (v.wrote (.inl result, y)).Mans e (notes ++ n) ⟨t, none⟩ := by
  refine h.aside station rfl ?_ ?_ rfl handed same.1 fun r known => same.2.trans known
  · rw [results]
    rfl
  · rw [answers, List.append_nil]
    rfl

theorem Mans.stalled (h : v.Mans e notes m) {n : List Station.Note} {y : Socket} {t : Station}
    {stall : Stall} (station : y.station? e = some t)
    (same : t.sender = m.station.sender ∧ t.closed = m.station.closed)
    (results : Station.results n = []) (answers : Station.answers n = [])
    (handed : Station.handed n = []) :
    (v.wrote (.inr (.stalled stall), y)).Mans e (notes ++ n) ⟨t, some stall⟩ := by
  refine h.aside station rfl ?_ ?_ rfl handed same.1 fun r known => same.2.trans known
  · rw [results, List.append_nil]
    rfl
  · rw [answers, List.append_nil]
    rfl

theorem Mans.update (h : v.Mans e notes m) {f : Station → Station} {n : List Station.Note}
    (results : Station.results n = []) (answers : Station.answers n = []) (handed : Station.handed n = [])
    (sender : (f m.station).sender = m.station.sender)
    (closed : ∀ r, m.station.closed = some r → (f m.station).closed = some r) :
    { v with socket := v.socket.update e f }.Mans e (notes ++ n) { m with station := f m.station } := by
  refine h.aside ?_ h.waiting ?_ ?_ rfl handed sender closed
  · simp [Socket.update, h.station]
  · rw [results, List.append_nil]
  · rw [answers, List.append_nil]

theorem Mans.write (h : v.Mans e notes m) (now : Nat) (chunk : Bytes) :
    (v.act e (.write now chunk)).Mans e (notes ++ (m.act (.write now chunk)).1)
      (m.act (.write now chunk)).2 := by
  unfold Watched.act Station.Manned.act
  dsimp only
  rw [write_offered h.station]
  split_ifs with closed
  · exact h.returned h.station ⟨rfl, rfl⟩ rfl rfl rfl
  · have taken : (v.socket.put e (m.station.take chunk)).station? e = some (m.station.take chunk) := by simp
    cases Stall.begin now (m.station.take chunk).backlog with
    | none => exact h.returned taken ⟨rfl, rfl⟩ rfl rfl rfl
    | some stall => exact h.stalled taken ⟨rfl, rfl⟩ rfl rfl rfl

theorem Mans.look (h : v.Mans e notes m) (now : Nat) :
    (v.act e (.look now)).Mans e (notes ++ (m.act (.look now)).1) (m.act (.look now)).2 := by
  unfold Watched.act Station.Manned.act canWrite
  dsimp only
  rw [h.waiting, h.station]
  cases m.waiting with
  | none => simpa using h
  | some stall =>
    dsimp only
    by_cases due : stall.isDue m.station.closed.isSome now = true
    · simp only [if_pos due, write_stalled h.station]
      cases stall.look m.station.closed.isSome m.station.backlog with
      | inl result => exact h.returned h.station ⟨rfl, rfl⟩ rfl rfl rfl
      | inr stall => exact h.stalled h.station ⟨rfl, rfl⟩ rfl rfl rfl
    · simpa [due] using h

theorem Mans.send (h : v.Mans e notes m) {now : Nat} (can : v.socket.canSend e now = true) :
    ∃ d, (v.act e (.send now)).Mans e (notes ++ (m.act d).1) (m.act d).2 := by
  obtain ⟨chunk, farewell, station, spoken⟩ := send_eq h.station can
  have turned := m.station.turned now chunk farewell
  have results : Station.results (m.station.turn now chunk farewell).1 = [] :=
    turned.filterMap_eq_nil rfl (fun _ => rfl) fun _ _ => rfl
  have answers : Station.answers (m.station.turn now chunk farewell).1 = [] :=
    turned.filterMap_eq_nil rfl (fun _ => rfl) fun _ _ => rfl
  unfold Watched.act
  dsimp only
  rw [if_pos can]
  refine ⟨.turn now chunk farewell, station, h.waiting, ?_, ?_, ?_⟩
  · rw [Station.Manned.act, Station.results_append, results, List.append_nil]
    exact h.results
  · rw [Station.Manned.act, Station.answers_append, answers, List.append_nil]
    exact h.answers
  · rw [Station.handed_append]
    exact spoken _ _ h.spoken

theorem Mans.read (h : v.Mans e notes m) :
    ∃ d, (v.act e .read).Mans e (notes ++ (m.act d).1) (m.act d).2 := by
  obtain ⟨answer, station⟩ := read_eq h.station
  obtain ⟨streaming, heard, same⟩ := m.station.hear_eq (v.socket.arrival? e)
  refine ⟨.hear (v.socket.arrival? e), h.aside station h.waiting (List.append_nil _).symm ?_ rfl rfl ?_ ?_⟩
  · exact congrArg (v.answers ++ [·]) answer
  · simp only [Station.Manned.act, same]
  · simp only [Station.Manned.act, same]
    exact fun _ known => known

theorem Mans.act (h : v.Mans e notes m) (o : Op) :
    (v.act e o).Mans e notes m ∨ ∃ d, (v.act e o).Mans e (notes ++ (m.act d).1) (m.act d).2 := by
  cases o with
  | write now chunk => exact .inr ⟨_, h.write now chunk⟩
  | look now => exact .inr ⟨_, h.look now⟩
  | send now =>
    by_cases can : v.socket.canSend e now = true
    · exact .inr (h.send can)
    · simpa only [Watched.act, if_neg can] using .inl h
  | read => exact .inr h.read
  | close reason =>
    exact .inr ⟨.close reason, h.update rfl rfl rfl rfl fun r known => by simp [Station.close, known]⟩
  | dropWriter => exact .inr ⟨.dropWriter, h.update rfl rfl rfl rfl fun _ known => known⟩
  | dropReader => exact .inr ⟨.dropReader, h.update rfl rfl rfl rfl fun _ known => known⟩
  | elsewhere o =>
    exact .inl ⟨(o.station?_act e v.socket).trans h.station, h.waiting, h.results, h.answers, h.spoken⟩

/-- An end of a socket, with whatever happens at the other end, behaves as a station. -/
theorem is_manned {x : Socket} {marks : Watermarks} (h : x.station? e = some (.new marks))
    (ops : List Op) : ∃ deeds, (ops.foldl (act e) (start x)).Mans e (Station.Manned.after marks deeds).1
      (Station.Manned.after marks deeds).2 := by
  induction ops using List.reverseRecOn with
  | nil => exact ⟨[], h, rfl, rfl, rfl, rfl⟩
  | append_singleton ops o ih =>
    obtain ⟨deeds, so_far⟩ := ih
    rw [List.foldl_concat]
    obtain still | ⟨d, acted⟩ := so_far.act o
    · exact ⟨deeds, still⟩
    · exact ⟨deeds ++ [d], by rwa [Station.Manned.after_concat]⟩

end Watched

end Socket

end PathRace
