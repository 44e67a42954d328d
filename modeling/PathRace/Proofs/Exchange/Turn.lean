import PathRace.Proofs.Exchange.Advance

/-! What a call changes in an exchange. Apart from the start, a call changes nothing or acts on one
path: the change of that path is a `Deed`, and `Turned` says what becomes of the rest. -/

namespace PathRace

theorem Stage.isNominated_iff {stage : Stage} :
    stage.isNominated = true ↔ ∃ t, stage = .nominated t := by
  cases stage <;> simp [isNominated]

inductive Call
  | start (now : Nat) (s : Entropy)
  | addChunk (pid : PathId) (chunk : Bytes)
  | processFrame (pid : PathId) (now : Nat) (s : Entropy)
  | nominate (pid : PathId)
  | createFrame (data : Bytes)

namespace Exchange

variable {S : Suite}

/-- A call, with the outcomes it yields and their paths. -/
def call (c : Call) (x : Exchange S) : Except EngineFault (List (PathId × Outcome)) × Exchange S :=
  match c with
  | .start now s =>
    let (result, x, _) := x.initialFrames now s
    (result.map (·.map fun (pid, frame) => (pid, Outcome.frame frame)), x)
  | .addChunk pid chunk =>
    let (result, x) := x.addChunk pid chunk
    (result.map fun _ => [], x)
  | .processFrame pid now s =>
    let (result, x, _) := x.processFrame pid now s
    (result.map (·.toList.map (pid, ·)), x)
  | .nominate pid =>
    let (result, x) := x.nominate pid
    (result.map fun o => [(pid, o)], x)
  | .createFrame data =>
    let (result, x) := x.createFrame data
    (result.map fun o => x.nominated.toList.map (·, o), x)

def yields (c : Call) (x : Exchange S) : List (PathId × Outcome) :=
  match (x.call c).1 with
  | .ok outcomes => outcomes
  | .error _ => []

/-! ### Strands -/

theorem lookup_cons (q p : PathId) (strand : Strand) (rest : List (PathId × Strand)) :
    ((p, strand) :: rest).lookup q = if q = p then some strand else rest.lookup q := by
  by_cases h : q = p
  · simp [h]
  · rw [List.lookup_cons, beq_false_of_ne h, if_neg h]

theorem lookup_put (l : List (PathId × Strand)) (pid : PathId) (strand : Strand) (q : PathId) :
    (l.map fun e => if e.1 = pid then (pid, strand) else e).lookup q =
      if q = pid then (l.lookup pid).map fun _ => strand else l.lookup q := by
  induction l with
  | nil => simp
  | cons e rest ih =>
    obtain ⟨p, v⟩ := e
    by_cases hp : p = pid
    · subst hp
      rw [List.map_cons, if_pos rfl, lookup_cons, lookup_cons, if_pos rfl, ih, lookup_cons]
      split_ifs <;> rfl
    · rw [List.map_cons, if_neg hp, lookup_cons, lookup_cons, if_neg (Ne.symm hp), ih, lookup_cons]
      by_cases hq : q = p
      · subst hq; simp [hp]
      · simp [hq]

theorem lookup_settle (l : List (PathId × Strand)) (pid q : PathId) :
    (l.filter fun e => e.1 = pid).lookup q = if q = pid then l.lookup pid else none := by
  induction l with
  | nil => simp
  | cons e rest ih =>
    obtain ⟨p, v⟩ := e
    by_cases hp : p = pid
    · subst hp
      rw [List.filter_cons_of_pos (by simp), lookup_cons, lookup_cons, if_pos rfl, ih]
      split_ifs <;> rfl
    · rw [List.filter_cons_of_neg (by simpa using hp), lookup_cons, if_neg (Ne.symm hp), ih]

theorem strand?_put {x : Exchange S} {pid : PathId} {old : Strand} (h : x.strand? pid = some old)
    (new : Strand) (q : PathId) :
    (x.put pid new).strand? q = if q = pid then some new else x.strand? q := by
  unfold strand? at h ⊢
  by_cases ha : (x.nominated.any (· != pid)) = true
  · simp [ha] at h
  · simp only [ha, Bool.false_eq_true, if_false] at h
    by_cases hq : q = pid
    · subst hq
      simp [put, ha, lookup_put, h]
    · simp [put, lookup_put, hq]

theorem nominated_of_strand? {x : Exchange S} {pid : PathId} {strand : Strand}
    (h : x.strand? pid = some strand) : x.nominated = none ∨ x.nominated = some pid := by
  unfold strand? at h
  cases hn : x.nominated with
  | none => exact .inl rfl
  | some q =>
    by_cases hq : q = pid
    · exact .inr (by rw [hq])
    · simp [hn, hq] at h

theorem buffered_of_strand? {x : Exchange S} {pid : PathId} {strand : Strand}
    (h : x.strand? pid = some strand) : x.buffered pid = strand.inbox.buffer.length := by
  unfold strand? at h
  split_ifs at h
  simp only [buffered, h]

theorem strand?_of_nominated {x : Exchange S} {pid q : PathId} (h : x.nominated = some pid)
    (hq : q ≠ pid) : x.strand? q = none := by
  simp [strand?, h, hq.symm]

theorem strand?_settle {x : Exchange S} {pid : PathId} {strand : Strand}
    (h : x.strand? pid = some strand) (q : PathId) :
    (x.settle pid).strand? q = if q = pid then some strand else none := by
  by_cases hq : q = pid
  · subst hq
    unfold strand? at h ⊢
    by_cases ha : (x.nominated.any (· != q)) = true
    · simp [ha] at h
    · simp only [ha, Bool.false_eq_true, if_false] at h
      simp [settle, lookup_settle, h]
  · have hn : (x.settle pid).nominated = some pid := rfl
    rw [if_neg hq, strand?_of_nominated hn hq]

@[simp] theorem record_nil (x : Exchange S) : x.record [] = x := rfl

@[simp] theorem strand?_record (x : Exchange S) (used : List Sealing) (q : PathId) :
    (x.record used).strand? q = x.strand? q := rfl

/-! ### Turns -/

/-- The call has changed the strand of `pid` from `old` to `new`. If `pid` is nominated by it, the other
paths are dropped. -/
structure Turned (x x' : Exchange S) (pid : PathId) (old new : Strand) (used : List Sealing) :
    Prop where
  device : x'.device = x.device
  started : x'.started = x.started
  used : x'.used = used ++ x.used
  before : x.strand? pid = some old
  after : x'.strand? pid = some new
  others : ∀ q, q ≠ pid → x'.strand? q = if new.stage.isNominated then none else x.strand? q
  nominated : x'.nominated = if new.stage.isNominated then some pid else x.nominated

theorem turned_put {x : Exchange S} {pid : PathId} {old new : Strand} {used : List Sealing}
    (h : x.strand? pid = some old) (hn : new.stage.isNominated = true → x.nominated = some pid) :
    Turned x ((x.record used).put pid new) pid old new used where
  device := rfl
  started := rfl
  used := rfl
  before := h
  after := by rw [strand?_put (x := x.record used) h, if_pos rfl]
  others q hq := by
    rw [strand?_put (x := x.record used) h, if_neg hq, strand?_record]
    split_ifs with hs
    · exact strand?_of_nominated (hn hs) hq
    · rfl
  nominated := by
    split_ifs with hs
    · exact hn hs
    · rfl

theorem turned_settle {x : Exchange S} {pid : PathId} {old new : Strand} {used : List Sealing}
    (h : x.strand? pid = some old) (hn : new.stage.isNominated = true) :
    Turned x (((x.record used).put pid new).settle pid) pid old new used := by
  have hp : ((x.record used).put pid new).strand? pid = some new := by
    rw [strand?_put (x := x.record used) h, if_pos rfl]
  refine ⟨rfl, rfl, rfl, h, ?_, fun q hq => ?_, ?_⟩
  · rw [strand?_settle hp, if_pos rfl]
  · rw [strand?_settle hp, if_neg hq, if_pos hn]
  · rw [if_pos hn]; rfl

/-- The change that a call makes to the strand of its path, with the uses of keys and the outcome. -/
inductive Deed (S : Suite) (d : Device) (pid : PathId) :
    Call → Strand → Strand → List Sealing → Option Outcome → Prop
  | fed {inbox : Reassembly} {stage : Stage} {chunk : Bytes} :
      Deed S d pid (.addChunk pid chunk) ⟨inbox, stage⟩ ⟨inbox.push chunk, stage⟩ [] none
  | refused {inbox inbox' : Reassembly} {stage : Stage} {c : Bytes} {now : Nat} {s : Entropy}
      (next : inbox.next = (.ok (some c), inbox')) :
      Deed S d pid (.processFrame pid now s) ⟨inbox, stage⟩ ⟨inbox', .failed⟩ [] none
  | took {inbox inbox' : Reassembly} {stage stage' : Stage} {c : Bytes} {now : Nat} {s : Entropy}
      {o : Outcome} {used : List Sealing} (next : inbox.next = (.ok (some c), inbox'))
      (advance : Device.Advance S d pid now c stage stage' o used) :
      Deed S d pid (.processFrame pid now s) ⟨inbox, stage⟩ ⟨inbox', stage'⟩ used (some o)
  | nominated {inbox : Reassembly} {transport : Transport} (nominator : d.isNominator = true)
      (fresh : transport.tx.isExhausted = false) :
      Deed S d pid (.nominate pid) ⟨inbox, .ready transport⟩
        ⟨inbox, .nominated { transport with tx := transport.tx.advance }⟩
        [transport.tx.sealing Message.nominate.encode]
        (some ((Outcome.frame (transport.tx.framed S .nominate)).adding
          (.nominated transport.hash)))
  | exhausted {inbox : Reassembly} {transport : Transport} (nominator : d.isNominator = true)
      (worn : transport.tx.isExhausted = true) :
      Deed S d pid (.nominate pid) ⟨inbox, .ready transport⟩ ⟨inbox, .failed⟩ [] none
  | sent {inbox : Reassembly} {transport : Transport} {data : Bytes} {o : Option Outcome}
      (frame : o = (transport.tx.send S (.ulp data)).frame.toOption.map Outcome.frame) :
      Deed S d pid (.createFrame data) ⟨inbox, .nominated transport⟩
        ⟨inbox, .nominated { transport with tx := (transport.tx.send S (.ulp data)).lane }⟩
        (transport.tx.send S (.ulp data)).used o

/-- A call after the start changes nothing or the strand of one path. -/
inductive Turn (x : Exchange S) (c : Call) : List (PathId × Outcome) → Exchange S → Prop
  | still : Turn x c [] x
  | turned {pid : PathId} {old new : Strand} {used : List Sealing} {o : Option Outcome}
      {x' : Exchange S} (deed : Deed S x.device pid c old new used o)
      (turned : Turned x x' pid old new used) : Turn x c (o.toList.map (pid, ·)) x'

/-- The nominated path is the one whose stage is nominated, unless that path has failed. -/
structure Settled (x : Exchange S) : Prop where
  named : ∀ pid strand, x.strand? pid = some strand → strand.stage.isNominated = true →
    x.nominated = some pid
  stays : ∀ pid strand, x.nominated = some pid → x.strand? pid = some strand →
    strand.stage.isNominated = true ∨ strand.stage = .failed

theorem Deed.isNominated {d : Device} {pid : PathId} {c : Call} {old new : Strand}
    {used : List Sealing} {o : Option Outcome} (h : Deed S d pid c old new used o)
    (ho : old.stage.isNominated = true ∨ old.stage = .failed) :
    new.stage.isNominated = true ∨ new.stage = .failed := by
  cases h with
  | fed => exact ho
  | refused | exhausted => exact .inr rfl
  | nominated | sent => exact .inl rfl
  | took next advance =>
    cases advance with
    | nominated | carried => exact .inl rfl
    | answered | proven | confirmed => simp [Stage.isNominated] at ho

theorem Deed.reports {d : Device} {pid : PathId} {c : Call} {old new : Strand}
    {used : List Sealing} {o : Option Outcome} (h : Deed S d pid c old new used o) {t : Transport}
    (hn : new.stage = .nominated t) :
    (∃ t', old.stage = .nominated t' ∧ t'.hash = t.hash) ∨
      ∃ o', o = some o' ∧ o'.update = some (.nominated t.hash) := by
  cases h with
  | fed => exact .inl ⟨t, hn, rfl⟩
  | refused | exhausted => cases hn
  | nominated => cases hn; exact .inr ⟨_, rfl, rfl⟩
  | sent => cases hn; exact .inl ⟨_, rfl, rfl⟩
  | took next advance =>
    cases advance with
    | answered | proven | confirmed => cases hn
    | nominated => cases hn; exact .inr ⟨_, rfl, rfl⟩
    | carried => cases hn; exact .inl ⟨_, rfl, rfl⟩

theorem Settled.turned {x x' : Exchange S} {pid : PathId} {c : Call} {old new : Strand}
    {used : List Sealing} {o : Option Outcome} (h : x.Settled)
    (deed : Deed S x.device pid c old new used o) (t : Turned x x' pid old new used) :
    x'.Settled where
  named q strand hs hn := by
    rw [t.nominated]
    by_cases hq : q = pid
    · subst hq
      obtain rfl : new = strand := Option.some.inj (t.after.symm.trans hs)
      rw [if_pos hn]
    · rw [t.others q hq] at hs
      split_ifs at hs ⊢
      exact h.named q strand hs hn
  stays q strand hx hs := by
    by_cases hq : q = pid
    · subst hq
      obtain rfl : new = strand := Option.some.inj (t.after.symm.trans hs)
      rw [t.nominated] at hx
      split_ifs at hx with hn
      · exact .inl hn
      · exact deed.isNominated (h.stays q old hx t.before)
    · rw [t.others q hq] at hs
      rw [t.nominated] at hx
      split_ifs at hs hx
      exact h.stays q strand hx hs

theorem Settled.turn {x x' : Exchange S} {c : Call} {ys : List (PathId × Outcome)} (h : x.Settled)
    (t : x.Turn c ys x') : x'.Settled := by
  cases t with
  | still => exact h
  | turned deed turned => exact h.turned deed turned

theorem Turn.started {x x' : Exchange S} {c : Call} {ys : List (PathId × Outcome)}
    (t : x.Turn c ys x') : x'.started = x.started := by
  cases t with
  | still => rfl
  | turned deed turned => exact turned.started

theorem Turn.nominated {x x' : Exchange S} {pid : PathId} {c : Call} {ys : List (PathId × Outcome)}
    (t : x.Turn c ys x') (hn : x.nominated = some pid) : x'.nominated = some pid := by
  cases t with
  | still => exact hn
  | @turned q old new used o x' deed turned =>
    rw [turned.nominated]
    split_ifs with hs
    · have same := (nominated_of_strand? turned.before).resolve_left (by simp [hn])
      exact same.symm.trans hn
    · exact hn

/-! ### Calls -/

/-- The exchange after one of its paths has taken a frame. -/
def took (x : Exchange S) (pid : PathId) (strand : Strand) (used : List Sealing) : Exchange S :=
  let x := (x.record used).put pid strand
  if strand.stage.isNominated && x.nominated.isNone then x.settle pid else x

theorem call_of_started {x x' : Exchange S} {now : Nat} {s s' : Entropy} {frames : List (PathId × Bytes)}
    (answer : x.initialFrames now s = (.ok frames, x', s')) : x.call (.start now s) =
      (.ok (frames.map fun (pid, frame) => (pid, Outcome.frame frame)), x') := by
  simp [call, answer, Except.map]

theorem call_of_taken {x : Exchange S} {pid : PathId} {inbox inbox' : Reassembly}
    {stage stage' : Stage} {c : Bytes} {o : Outcome} {now : Nat} {s : Entropy}
    (hs : x.strand? pid = some ⟨inbox, stage⟩) (hn : inbox.next = (.ok (some c), inbox'))
    (hr : (x.device.step S pid now stage c s).result = .ok (stage', o)) :
    x.call (.processFrame pid now s) =
      (.ok [(pid, o)], x.took pid ⟨inbox', stage'⟩ (x.device.step S pid now stage c s).used) := by
  simp [call, processFrame, hs, hn, hr, took, Except.map]

theorem call_of_refused {x : Exchange S} {pid : PathId} {inbox inbox' : Reassembly}
    {stage : Stage} {c : Bytes} {fault : EngineFault} {now : Nat} {s : Entropy}
    (hs : x.strand? pid = some ⟨inbox, stage⟩) (hn : inbox.next = (.ok (some c), inbox'))
    (hr : (x.device.step S pid now stage c s).result = .error fault) :
    x.call (.processFrame pid now s) = (.error fault,
      (x.record (x.device.step S pid now stage c s).used).put pid ⟨inbox', .failed⟩) := by
  simp [call, processFrame, hs, hn, hr, Except.map]

theorem call_of_nominate {x : Exchange S} {pid : PathId} {inbox : Reassembly} {transport : Transport}
    (nominator : x.device.isNominator = true) (hx : x.nominated = none)
    (hs : x.strand? pid = some ⟨inbox, .ready transport⟩) (fresh : transport.tx.isExhausted = false) :
    x.call (.nominate pid) =
      (.ok [(pid, (Outcome.frame (transport.tx.framed S .nominate)).adding
        (.nominated transport.hash))],
      ((x.record [transport.tx.sealing Message.nominate.encode]).put pid
        ⟨inbox, .nominated { transport with tx := transport.tx.advance }⟩).settle pid) := by
  simp [call, nominate, nominator, hx, hs, Lane.send_of_fits fresh Lane.fits_nominate, Except.map]

theorem turned_took {x : Exchange S} {pid : PathId} {old new : Strand} (hs : x.strand? pid = some old)
    (used : List Sealing) : Turned x (x.took pid new used) pid old new used := by
  unfold took
  dsimp only
  split_ifs with hn
  · exact turned_settle hs (by simp_all)
  · refine turned_put hs fun hi => (nominated_of_strand? hs).resolve_left fun hx => hn ?_
    simp [hi, put, record, hx]

theorem Settled.turn_addChunk {x : Exchange S} (h : x.Settled) (pid : PathId) (chunk : Bytes) :
    x.Turn (.addChunk pid chunk) (x.yields (.addChunk pid chunk))
      (x.call (.addChunk pid chunk)).2 := by
  cases hs : x.strand? pid with
  | none => simpa [yields, call, addChunk, hs, Except.map] using Turn.still
  | some strand =>
    have turned : Turned x ((x.record []).put pid ⟨strand.inbox.push chunk, strand.stage⟩) pid
        strand _ [] := turned_put hs (h.named pid strand hs)
    simpa [yields, call, addChunk, hs, Except.map] using Turn.turned .fed turned

theorem processFrame_cases (x : Exchange S) (pid : PathId) (now : Nat) (s : Entropy) :
    (∃ fault, x.call (.processFrame pid now s) = (.error fault, x)) ∨
    x.call (.processFrame pid now s) = (.ok [], x) ∨
    (∃ inbox inbox' stage c fault, x.strand? pid = some ⟨inbox, stage⟩ ∧
      inbox.next = (.ok (some c), inbox') ∧
      (x.device.step S pid now stage c s).result = .error fault ∧
      x.call (.processFrame pid now s) = (.error fault, x.put pid ⟨inbox', .failed⟩)) ∨
    (∃ inbox inbox' stage stage' c o used, x.strand? pid = some ⟨inbox, stage⟩ ∧
      inbox.next = (.ok (some c), inbox') ∧
      Device.Advance S x.device pid now c stage stage' o used ∧
      x.call (.processFrame pid now s) = (.ok [(pid, o)], x.took pid ⟨inbox', stage'⟩ used)) := by
  cases hs : x.strand? pid with
  | none => exact .inl ⟨.unknownPath pid, by simp [call, processFrame, hs, Except.map]⟩
  | some strand =>
    obtain ⟨inbox, stage⟩ := strand
    rcases hn : inbox.next with ⟨fault | _ | c, inbox'⟩
    · exact .inl ⟨fault, by simp [call, processFrame, hs, hn, Except.map]⟩
    · exact .inr (.inl (by simp [call, processFrame, hs, hn, Except.map]))
    · have taken : Device.Taken S x.device pid now c stage (x.device.step S pid now stage c s) :=
        Device.step_cases stage
      rcases taken with ⟨stage', o, hr, advance⟩ | ⟨⟨fault, hr⟩, unused⟩
      · exact .inr (.inr (.inr ⟨_, _, _, _, c, o, _, rfl, hn, advance, call_of_taken hs hn hr⟩))
      · refine .inr (.inr (.inl ⟨_, _, _, c, fault, rfl, hn, hr, ?_⟩))
        rw [call_of_refused hs hn hr, unused, record_nil]

theorem turn_processFrame (x : Exchange S) (pid : PathId) (now : Nat)
    (s : Entropy) : x.Turn (.processFrame pid now s) (x.yields (.processFrame pid now s))
      (x.call (.processFrame pid now s)).2 := by
  rcases processFrame_cases x pid now s with ⟨fault, he⟩ | he |
    ⟨inbox, inbox', stage, c, fault, hs, hn, -, he⟩ |
    ⟨inbox, inbox', stage, stage', c, o, used, hs, hn, advance, he⟩
  all_goals rw [yields, he]
  · exact .still
  · exact .still
  · have turned : Turned x ((x.record []).put pid ⟨inbox', .failed⟩) pid _ _ [] :=
      turned_put hs (by simp [Stage.isNominated])
    exact .turned (o := none) (.refused hn) turned
  · exact .turned (.took hn advance) (turned_took hs _)

theorem turned_of_processFrame {x x' : Exchange S} {pid : PathId} {now : Nat} {s s' : Entropy} {o : Outcome}
    (h : Engine.processFrame pid now x s = (.ok (some o), x', s')) :
    ∃ old new used, Deed S x.device pid (.processFrame pid now s) old new used (some o) ∧
      Turned x x' pid old new used := by
  have h : x.processFrame pid now s = (.ok (some o), x', s') := h
  have turn := turn_processFrame x pid now s
  simp only [yields, call, h, Except.map, Option.toList_some, List.map_cons, List.map_nil] at turn
  generalize hys : [(pid, o)] = ys at turn
  cases turn with
  | still => cases hys
  | @turned q old new used o' _ deed turned =>
    cases o' with
    | none => cases hys
    | some o' =>
      obtain ⟨rfl, rfl⟩ : pid = q ∧ o = o' := by simpa using hys
      exact ⟨old, new, used, deed, turned⟩

theorem processFrame_none {x x' : Exchange S} {pid : PathId} {now : Nat} {s s' : Entropy}
    (h : Engine.processFrame pid now x s = (.ok none, x', s')) : x' = x ∧ s' = s := by
  have h : x.processFrame pid now s = (.ok none, x', s') := h
  unfold processFrame at h
  split at h
  · simp at h
  · split at h
    · simp at h
    · obtain ⟨rfl, rfl⟩ : x = x' ∧ s = s' := by simpa using h
      exact ⟨rfl, rfl⟩
    · dsimp only at h
      split at h <;> simp at h

theorem nominate_cases (x : Exchange S) (pid : PathId) :
    (∃ fault, x.call (.nominate pid) = (.error fault, x)) ∨
    (∃ inbox transport, x.strand? pid = some ⟨inbox, .ready transport⟩ ∧
      x.device.isNominator = true ∧ transport.tx.isExhausted = true ∧
      x.call (.nominate pid) =
        (.error (.crypto .counterExhaustion), x.put pid ⟨inbox, .failed⟩)) ∨
    (∃ inbox transport, x.strand? pid = some ⟨inbox, .ready transport⟩ ∧
      x.device.isNominator = true ∧ transport.tx.isExhausted = false ∧
      x.call (.nominate pid) =
        (.ok [(pid, (Outcome.frame (transport.tx.framed S .nominate)).adding
          (.nominated transport.hash))],
        ((x.record [transport.tx.sealing Message.nominate.encode]).put pid
          ⟨inbox, .nominated { transport with tx := transport.tx.advance }⟩).settle pid)) := by
  by_cases nominator : x.device.isNominator = true
  · cases hx : x.nominated with
    | some q => exact .inl ⟨.alreadyNominated, by simp [call, nominate, nominator, hx, Except.map]⟩
    | none =>
      cases hs : x.strand? pid with
      | none =>
        exact .inl ⟨.unknownPath pid, by simp [call, nominate, nominator, hx, hs, Except.map]⟩
      | some strand =>
        obtain ⟨inbox, stage⟩ := strand
        cases stage with
        | ready transport =>
          cases hl : transport.tx.isExhausted with
          | true =>
            refine .inr (.inl ⟨inbox, transport, rfl, nominator, hl, ?_⟩)
            simp [call, nominate, nominator, hx, hs, Lane.send_of_exhausted hl, Except.map]
          | false =>
            exact .inr (.inr ⟨inbox, transport, rfl, nominator, hl,
              call_of_nominate nominator hx hs hl⟩)
        | _ => exact .inl ⟨.notReady pid, by simp [call, nominate, nominator, hx, hs, Except.map]⟩
  · exact .inl ⟨.notNominator, by simp [call, nominate, nominator, Except.map]⟩

theorem turn_nominate (x : Exchange S) (pid : PathId) :
    x.Turn (.nominate pid) (x.yields (.nominate pid)) (x.call (.nominate pid)).2 := by
  rcases nominate_cases x pid with ⟨fault, he⟩ | ⟨inbox, transport, hs, nominator, hl, he⟩ |
    ⟨inbox, transport, hs, nominator, hl, he⟩
  all_goals rw [yields, he]
  · exact .still
  · have turned : Turned x ((x.record []).put pid ⟨inbox, .failed⟩) pid _ _ [] :=
      turned_put hs (by simp [Stage.isNominated])
    exact .turned (o := none) (.exhausted nominator hl) turned
  · exact .turned (.nominated nominator hl) (turned_settle hs rfl)

theorem createFrame_cases (x : Exchange S) (data : Bytes) :
    (∃ fault, x.call (.createFrame data) = (.error fault, x)) ∨
    (∃ pid inbox transport, x.nominated = some pid ∧
      x.strand? pid = some ⟨inbox, .nominated transport⟩ ∧
      x.call (.createFrame data) =
        ((transport.tx.send S (.ulp data)).frame.map fun frame => [(pid, Outcome.frame frame)],
        (x.put pid ⟨inbox,
          .nominated { transport with tx := (transport.tx.send S (.ulp data)).lane }⟩).record
            (transport.tx.send S (.ulp data)).used)) := by
  simp only [call, createFrame]
  cases hx : x.nominated with
  | none => exact .inl ⟨_, rfl⟩
  | some pid =>
    dsimp only
    cases hs : x.strand? pid with
    | none => exact .inl ⟨_, rfl⟩
    | some strand =>
      obtain ⟨inbox, stage⟩ := strand
      cases stage with
      | nominated transport =>
        refine .inr ⟨pid, inbox, transport, rfl, hs, Prod.ext ?_ rfl⟩
        cases hf : (transport.tx.send S (.ulp data)).frame <;>
          simp [hf, Except.map, put, record, hx]
      | _ => exact .inl ⟨_, rfl⟩

theorem turn_createFrame (x : Exchange S) (data : Bytes) :
    x.Turn (.createFrame data) (x.yields (.createFrame data)) (x.call (.createFrame data)).2 := by
  rcases createFrame_cases x data with ⟨fault, he⟩ | ⟨pid, inbox, transport, hx, hs, he⟩
  all_goals rw [yields, he]
  · exact .still
  · have t : x.Turn (.createFrame data) _ ((x.put pid _).record _) :=
      .turned (.sent rfl) (turned_put hs fun _ => hx)
    cases hf : (transport.tx.send S (.ulp data)).frame <;>
      simpa [hf, Except.map, Except.toOption] using t

/-! ### The start -/

theorem new_ok {setup : Setup} {x : Exchange S} (h : Exchange.new S setup = .ok x) :
    setup.pids.Nodup ∧ x = {
      device := ⟨setup.role, setup.isNominator, setup.ak⟩
      strands := (setup.pids.mergeSort (· ≤ ·)).map (·, Strand.fresh)
      started := false
      nominated := none
      used := [] } := by
  unfold Exchange.new at h
  split_ifs at h with he hn
  exact ⟨hn, (Except.ok.inj h).symm⟩

theorem lookup_fresh (pids : List PathId) (pid : PathId) :
    (pids.map (·, Strand.fresh)).lookup pid = if pid ∈ pids then some Strand.fresh else none := by
  induction pids with
  | nil => simp
  | cons p rest ih =>
    rw [List.map_cons, lookup_cons, ih]
    by_cases hp : pid = p <;> simp [hp]

/-- The hellos of the start, each with its own secret and challenge. -/
inductive Greets (S : Suite) (d : Device) (now : Nat) : List (PathId × Strand) →
    List (PathId × Bytes) → List (PathId × Strand) → List Sealing → Prop
  | nil : Greets S d now [] [] [] []
  | cons {pid : PathId} {strand : Strand} {rest strands : List (PathId × Strand)}
      {frames : List (PathId × Bytes)} {used : List Sealing} (secret : Octets 32)
      (challenge : Challenge) (tail : Greets S d now rest frames strands used) :
      Greets S d now ((pid, strand) :: rest)
        ((pid, (d.authLane S d.role pid).framed S (.hello challenge (S.publicKey secret))) :: frames)
        ((pid, { strand with stage := .awaitingAuthHello secret challenge now }) :: strands)
        (used ++ [(d.authLane S d.role pid).sealing
          (Message.hello challenge (S.publicKey secret)).encode])

theorem greets (d : Device) (now : Nat) (l : List (PathId × Strand)) (s : Entropy) :
    ∃ frames strands used s', greet S d now l s = (.ok frames, strands, used, s') ∧
      Greets S d now l frames strands used := by
  induction l generalizing s with
  | nil => exact ⟨[], [], [], s, rfl, .nil⟩
  | cons e rest ih =>
    obtain ⟨pid, strand⟩ := e
    obtain ⟨frames, strands, used, s', hg, tail⟩ := ih ((s.draw 32).2.draw 16).2
    refine ⟨_, _, _, s', ?_, .cons (s.draw 32).1 ((s.draw 32).2.draw 16).1 tail⟩
    simp only [greet, Lane.send_of_fits (Device.isExhausted_authLane ..) (Lane.fits_hello ..), hg]
    rfl

theorem Greets.greeted {d : Device} {now : Nat} {l strands : List (PathId × Strand)}
    {frames : List (PathId × Bytes)} {used : List Sealing} (h : Greets S d now l frames strands used)
    (pid : PathId) :
    (l.lookup pid = none ∧ strands.lookup pid = none ∧ frames.lookup pid = none) ∨
    ∃ strand secret challenge, l.lookup pid = some strand ∧
      strands.lookup pid = some { strand with stage := .awaitingAuthHello secret challenge now } ∧
      frames.lookup pid =
        some ((d.authLane S d.role pid).framed S (.hello challenge (S.publicKey secret))) ∧
      (d.authLane S d.role pid).sealing (Message.hello challenge (S.publicKey secret)).encode ∈ used := by
  induction h with
  | nil => exact .inl ⟨rfl, rfl, rfl⟩
  | @cons p strand rest strands frames used secret challenge tail ih =>
    by_cases hp : pid = p
    · subst hp
      exact .inr ⟨strand, secret, challenge, by simp, by simp, by simp, by simp⟩
    · have hb := beq_false_of_ne hp
      simp only [List.lookup_cons, hb]
      rcases ih with ih | ⟨strand, secret, challenge, hl, hs, hf, hu⟩
      · exact .inl ih
      · exact .inr ⟨strand, secret, challenge, hl, hs, hf, List.mem_append_left _ hu⟩

theorem Greets.paths {d : Device} {now : Nat} {l strands : List (PathId × Strand)}
    {frames : List (PathId × Bytes)} {used : List Sealing} (h : Greets S d now l frames strands used) :
    frames.map Prod.fst = l.map Prod.fst := by
  induction h with
  | nil => rfl
  | cons secret challenge tail ih => simp [ih]

theorem Greets.mem_used {d : Device} {now : Nat} {l strands : List (PathId × Strand)}
    {frames : List (PathId × Bytes)} {used : List Sealing} (h : Greets S d now l frames strands used)
    {u : Sealing} (hu : u ∈ used) :
    ∃ pid ∈ l.map Prod.fst, ∃ challenge secret,
      u = (d.authLane S d.role pid).sealing (Message.hello challenge (S.publicKey secret)).encode := by
  induction h with
  | nil => simp at hu
  | @cons p strand rest strands frames used secret challenge tail ih =>
    rcases List.mem_append.1 hu with hu | hu
    · obtain ⟨pid, hp, hello⟩ := ih hu
      exact ⟨pid, List.mem_cons_of_mem _ hp, hello⟩
    · exact ⟨p, by simp, challenge, _, by simpa using hu⟩

theorem Greets.unique {d : Device} {now : Nat} {l strands : List (PathId × Strand)}
    {frames : List (PathId × Bytes)} {used : List Sealing} (h : Greets S d now l frames strands used)
    (hn : (l.map Prod.fst).Nodup) {u v : Sealing} (hu : u ∈ used) (hv : v ∈ used)
    {pid : PathId} {i j : UInt64} {dir dir' : Direction} (hi : u.nonce = Nonce.make pid dir i)
    (hj : v.nonce = Nonce.make pid dir' j) : u = v := by
  induction h with
  | nil => simp at hu
  | @cons p strand rest strands frames used secret challenge tail ih =>
    obtain ⟨hp, hn⟩ := List.nodup_cons.1 hn
    -- a path further down is not the first one
    have apart {w : Sealing} (hw : w ∈ used) {k : UInt64} {dir : Direction}
        (hk : w.nonce = Nonce.make p dir k) : False := by
      obtain ⟨q, hq, challenge, key, rfl⟩ := tail.mem_used hw
      exact hp ((Nonce.make_inj hk).1 ▸ hq)
    have first {w : Sealing} (hw : w ∈ [(d.authLane S d.role p).sealing
        (Message.hello challenge (S.publicKey secret)).encode]) {k : UInt64} {dir : Direction}
        (hk : w.nonce = Nonce.make pid dir k) : p = pid := by
      obtain rfl := List.mem_singleton.1 hw
      exact (Nonce.make_inj hk).1
    rcases List.mem_append.1 hu with hu | hu <;> rcases List.mem_append.1 hv with hv | hv
    · exact ih hn hu hv
    · obtain rfl := first hv hj
      exact (apart hu hi).elim
    · obtain rfl := first hu hi
      exact (apart hv hj).elim
    · exact (List.mem_singleton.1 hu).trans (List.mem_singleton.1 hv).symm

theorem start_cases (x : Exchange S) (now : Nat) (s : Entropy) :
    (x.started = true ∧ ∃ fault, x.call (.start now s) = (.error fault, x)) ∨
    (x.started = false ∧ x.device.role = .initiator ∧
      x.call (.start now s) = (.ok [], { x with started := true })) ∨
    (x.started = false ∧ x.device.role = .responder ∧ ∃ frames strands used,
      Greets S x.device now x.strands frames strands used ∧
      x.call (.start now s) = (.ok (frames.map fun (pid, frame) => (pid, Outcome.frame frame)),
        { x with started := true, strands, used := used ++ x.used })) := by
  cases hx : x.started with
  | true => exact .inl ⟨rfl, _, by simp only [call, initialFrames, hx, if_true]; rfl⟩
  | false =>
    cases hr : x.device.role with
    | initiator =>
      exact .inr (.inl ⟨rfl, rfl, by simp [call, initialFrames, hx, hr, Except.map]⟩)
    | responder =>
      obtain ⟨frames, strands, used, s', hg, greets⟩ := greets (S := S) x.device now x.strands s
      exact .inr (.inr ⟨rfl, rfl, frames, strands, used, greets,
        by simp [call, initialFrames, hx, hr, hg, Except.map, record]⟩)

theorem call_start_of_started {x : Exchange S} (started : x.started = true) (now : Nat)
    (s : Entropy) :
    x.call (.start now s) = (.error (.invalidSetup "initial frames already created"), x) := by
  simp [call, initialFrames, started, Except.map]

theorem Settled.turn_call {x : Exchange S} (h : x.Settled) (started : x.started = true) (c : Call) :
    x.Turn c (x.yields c) (x.call c).2 := by
  cases c with
  | start now s =>
    rw [yields, call_start_of_started started]
    exact .still
  | addChunk pid chunk => exact h.turn_addChunk pid chunk
  | processFrame pid now s => exact turn_processFrame x pid now s
  | nominate pid => exact turn_nominate x pid
  | createFrame data => exact turn_createFrame x data

end Exchange

end PathRace
