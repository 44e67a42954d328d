import PathRace.Proofs.Exchange.Nonces
import PathRace.Proofs.Wire.Frame

/-! Containment of faults. A call refused up front leaves the whole exchange unchanged
(`refused_still`). A refused frame is consumed, its path fails, and every other path is unchanged
(`Rejects`); a failed path yields nothing more (`Failed.call`). After a nomination only the nominated
path is left (`Orderly`). -/

namespace PathRace

/-! ### Reasons for refusing a frame -/

/-- A fault of the frame itself, not of the call. -/
def EngineFault.isOfFrame : EngineFault → Bool
  | malformedFrame _ | unexpectedMessage .. | challengeMismatch | crypto _ => true
  | frameTooLarge .. | unknownPath _ | notReady _ | notNominator | alreadyNominated | notNominated
  | invalidSetup _ => false

theorem Message.isOfFrame_of_decode {p : Bytes} {fault : EngineFault}
    (h : Message.decode p = .error fault) : fault.isOfFrame = true := by
  unfold Message.decode at h
  split at h
  · cases h; rfl
  · split at h
    all_goals first | (split at h <;> cases h <;> rfl) | (cases h <;> rfl)

theorem Lane.isOfFrame_of_receive {S : Suite} {l l' : Lane} {c : Bytes} {fault : EngineFault}
    (h : l.receive S c = (.error fault, l')) : fault.isOfFrame = true := by
  unfold Lane.receive at h
  split at h
  · cases h; rfl
  · exact Message.isOfFrame_of_decode (Prod.mk.inj h).1

theorem Lane.error_of_send {S : Suite} {l : Lane} {m : Message} {fault : EngineFault}
    (h : (l.send S m).frame = .error fault) :
    fault = .crypto .counterExhaustion ∨ ∃ length, fault = .frameTooLarge length Limit.frame := by
  cases hl : l.isExhausted with
  | true =>
    rw [Lane.send_of_exhausted hl] at h
    exact .inl (Except.error.inj h).symm
  | false =>
    rw [Lane.frame_send S m l hl, Frame.encode] at h
    split_ifs at h
    exact .inr ⟨_, (Except.error.inj h).symm⟩

namespace Device

variable {S : Suite} {d : Device} {pid : PathId} {now : Nat} {c : Bytes} {s : Entropy}
  {fault : EngineFault}

theorem isOfFrame_of_hello (h : (d.onHello S pid now c s).result = .error fault) :
    fault.isOfFrame = true := by
  unfold onHello at h
  split at h
  · rename_i opened
    cases h
    exact Lane.isOfFrame_of_receive opened
  · dsimp only at h
    split at h
    · cases h; rfl
    · rw [Lane.send_of_fits (isExhausted_authLane ..) (Lane.fits_authHello ..)] at h
      cases h
  · cases h; rfl

theorem isOfFrame_of_authHello {secret : Octets 32} {own : Challenge} {sentAt : Nat}
    (h : (d.onAuthHello S pid now secret own sentAt c s).result = .error fault) :
    fault.isOfFrame = true := by
  unfold onAuthHello at h
  split at h
  · rename_i opened
    cases h
    exact Lane.isOfFrame_of_receive opened
  · split_ifs at h
    · cases h; rfl
    · split at h
      · cases h; rfl
      · dsimp only at h
        rw [Lane.send_of_fits (Transport.isExhausted_start_tx ..) (Lane.fits_auth ..)] at h
        cases h
  · cases h; rfl

theorem isOfFrame_of_auth {transport : Transport} {own : Challenge} {sentAt : Nat}
    (h : (onAuth S now transport own sentAt c s).result = .error fault) :
    fault.isOfFrame = true := by
  unfold onAuth at h
  split at h
  · rename_i opened
    cases h
    exact Lane.isOfFrame_of_receive opened
  · split_ifs at h
    cases h
    rfl
  · cases h; rfl

theorem isOfFrame_of_nominate {transport : Transport}
    (h : (d.onNominate S transport c s).result = .error fault) : fault.isOfFrame = true := by
  unfold onNominate at h
  split at h
  · rename_i opened
    cases h
    exact Lane.isOfFrame_of_receive opened
  · split_ifs at h
    cases h
    rfl

theorem isOfFrame_of_ulp {transport : Transport}
    (h : (onUlp S transport c s).result = .error fault) : fault.isOfFrame = true := by
  unfold onUlp at h
  split at h
  · rename_i opened
    cases h
    exact Lane.isOfFrame_of_receive opened
  · cases h
  · cases h; rfl

theorem isOfFrame_of_step {stage : Stage} (h : (d.step S pid now stage c s).result = .error fault) :
    fault.isOfFrame = true := by
  cases stage with
  | awaitingHello => exact isOfFrame_of_hello h
  | awaitingAuthHello => exact isOfFrame_of_authHello h
  | awaitingAuth => exact isOfFrame_of_auth h
  | ready => exact isOfFrame_of_nominate h
  | nominated => exact isOfFrame_of_ulp h
  | failed => cases h; rfl

end Device

/-! ### Calls that are refused -/

namespace Call

def path? : Call → Option PathId
  | addChunk pid _ | processFrame pid .. | nominate pid => some pid
  | start .. | createFrame _ => none

/-- The faults that refuse a call before it has any effect. -/
def refuses : Call → EngineFault → Bool
  | start .., .invalidSetup _ => true
  | addChunk .., .unknownPath _ => true
  | processFrame .., .unknownPath _ | processFrame .., .frameTooLarge .. => true
  | nominate _, .notNominator | nominate _, .alreadyNominated | nominate _, .unknownPath _
  | nominate _, .notReady _ => true
  | createFrame _, .notNominated => true
  | _, _ => false

theorem refuses_processFrame {pid : PathId} {now : Nat} {s : Entropy} {fault : EngineFault}
    (h : fault.isOfFrame = true) : (processFrame pid now s).refuses fault = false := by
  cases fault <;> first | rfl | cases h

theorem refuses_createFrame {S : Suite} {l : Lane} {m : Message} {data : Bytes}
    {fault : EngineFault} (h : (l.send S m).frame = .error fault) :
    (createFrame data).refuses fault = false := by
  rcases Lane.error_of_send h with rfl | ⟨length, rfl⟩ <;> rfl

end Call

namespace Exchange

variable {S : Suite} {x x' : Exchange S} {pid : PathId} {c : Call} {fault : EngineFault}

/-- A call refused with such a fault changes nothing. -/
theorem refused_still (h : (x.call c).1 = .error fault) (refused : c.refuses fault = true) :
    (x.call c).2 = x := by
  cases c with
  | start now s =>
    rcases start_cases x now s with
      ⟨-, fault', he⟩ | ⟨-, -, he⟩ | ⟨-, -, frames, strands, used, -, he⟩
    · rw [he]
    · rw [he] at h; cases h
    · rw [he] at h; cases h
  | addChunk pid chunk =>
    cases hs : x.strand? pid with
    | none => simp [call, addChunk, hs]
    | some strand => simp [call, addChunk, hs, Except.map] at h
  | processFrame pid now s =>
    rcases processFrame_cases x pid now s with ⟨fault', he⟩ | he |
      ⟨inbox, inbox', stage, c, fault', -, -, hr, he⟩ |
      ⟨inbox, inbox', stage, stage', c, o, used, -, -, -, he⟩
    · rw [he]
    · rw [he]
    · rw [he] at h
      obtain rfl : fault' = fault := Except.error.inj h
      rw [Call.refuses_processFrame (Device.isOfFrame_of_step hr)] at refused
      cases refused
    · rw [he] at h
      cases h
  | nominate pid =>
    rcases nominate_cases x pid with ⟨fault', he⟩ | ⟨inbox, transport, -, -, -, he⟩ |
      ⟨inbox, transport, -, -, -, he⟩
    · rw [he]
    · rw [he] at h
      cases h
      cases refused
    · rw [he] at h
      cases h
  | createFrame data =>
    rcases createFrame_cases x data with ⟨fault', he⟩ | ⟨pid, inbox, transport, -, -, he⟩
    · rw [he]
    · rw [he] at h
      cases hf : (transport.tx.send S (.ulp data)).frame with
      | ok frame => simp [hf, Except.map] at h
      | error fault' =>
        obtain rfl : fault' = fault := by simpa [hf, Except.map] using h
        rw [Call.refuses_createFrame hf] at refused
        cases refused

/-! ### The paths of an exchange -/

@[simp] theorem pids_put (x : Exchange S) (pid : PathId) (strand : Strand) :
    (x.put pid strand).pids = x.pids := by
  simp only [pids, put, List.map_map]
  refine List.map_congr_left fun e _ => ?_
  by_cases he : e.1 = pid <;> simp [he]

@[simp] theorem pids_record (x : Exchange S) (used : List Sealing) : (x.record used).pids = x.pids :=
  rfl

theorem pids_settle (x : Exchange S) (pid : PathId) :
    (x.settle pid).pids = x.pids.filter (· = pid) := by
  simp only [pids, settle, List.filter_map]
  rfl

theorem Greets.pids {d : Device} {now : Nat} {l strands : List (PathId × Strand)}
    {frames : List (PathId × Bytes)} {used : List Sealing}
    (h : Greets S d now l frames strands used) : strands.map Prod.fst = l.map Prod.fst := by
  induction h with
  | nil => rfl
  | cons secret challenge tail ih => simp [ih]

/-- A call keeps the set of paths, or nominates one of them and drops the others. -/
def Sifts (x x' : Exchange S) : Prop :=
  (x'.pids = x.pids ∧ x'.nominated = x.nominated) ∨
    ∃ pid ∈ x.pids, x'.pids = x.pids.filter (· = pid) ∧ x'.nominated = some pid

theorem sifts_call (x : Exchange S) (c : Call) : x.Sifts (x.call c).2 := by
  cases c with
  | start now s =>
    rcases start_cases x now s with
      ⟨-, fault, he⟩ | ⟨-, -, he⟩ | ⟨-, -, frames, strands, used, greets, he⟩
    · rw [he]; exact .inl ⟨rfl, rfl⟩
    · rw [he]; exact .inl ⟨rfl, rfl⟩
    · rw [he]; exact .inl ⟨greets.pids, rfl⟩
  | addChunk pid chunk =>
    cases hs : x.strand? pid with
    | none => simp [Sifts, call, addChunk, hs]
    | some strand =>
      simp only [call, addChunk, hs]
      exact .inl ⟨pids_put .., rfl⟩
  | processFrame pid now s =>
    rcases processFrame_cases x pid now s with ⟨fault, he⟩ | he |
      ⟨inbox, inbox', stage, c, fault, -, -, -, he⟩ |
      ⟨inbox, inbox', stage, stage', c, o, used, hs, -, -, he⟩
    all_goals rw [he]
    · exact .inl ⟨rfl, rfl⟩
    · exact .inl ⟨rfl, rfl⟩
    · exact .inl ⟨pids_put .., rfl⟩
    · unfold took
      dsimp only
      split_ifs
      · exact .inr ⟨pid, mem_pids_of_strand? hs, by simp [pids_settle], rfl⟩
      · exact .inl ⟨by simp, rfl⟩
  | nominate pid =>
    rcases nominate_cases x pid with ⟨fault, he⟩ | ⟨inbox, transport, -, -, -, he⟩ |
      ⟨inbox, transport, hs, -, -, he⟩
    all_goals rw [he]
    · exact .inl ⟨rfl, rfl⟩
    · exact .inl ⟨pids_put .., rfl⟩
    · exact .inr ⟨pid, mem_pids_of_strand? hs, by simp [pids_settle], rfl⟩
  | createFrame data =>
    rcases createFrame_cases x data with ⟨fault, he⟩ | ⟨pid, inbox, transport, -, -, he⟩
    all_goals rw [he]
    · exact .inl ⟨rfl, rfl⟩
    · exact .inl ⟨by simp, rfl⟩

/-- The exchange has started, and after a nomination its only path is the nominated one. -/
structure Orderly (x : Exchange S) : Prop where
  started : x.started = true
  settled : x.Settled
  distinct : x.pids.Nodup
  alone : ∀ pid, x.nominated = some pid → x.pids = [pid]

theorem orderly_start {setup : Setup} (new : Exchange.new S setup = .ok x) (now : Nat) (s : Entropy) :
    (x.call (.start now s)).2.Orderly := by
  have waiting := waiting_new new
  obtain ⟨started, fresh⟩ := waiting.start now s
  have unnamed : (x.call (.start now s)).2.nominated = none ∧
      (x.call (.start now s)).2.pids = x.pids := by
    rcases start_cases x now s with
      ⟨-, fault, he⟩ | ⟨-, -, he⟩ | ⟨-, -, frames, strands, used, greets, he⟩
    · rw [he]; exact ⟨waiting.nominated, rfl⟩
    · rw [he]; exact ⟨waiting.nominated, rfl⟩
    · rw [he]; exact ⟨waiting.nominated, greets.pids⟩
  refine ⟨started, fresh.settled, ?_, fun pid hn => ?_⟩
  · rw [unnamed.2]
    exact waiting.paths
  · rw [unnamed.1] at hn
    cases hn

theorem Orderly.call (h : x.Orderly) (c : Call) : (x.call c).2.Orderly := by
  have turn := h.settled.turn_call h.started c
  have started := turn.started.trans h.started
  rcases sifts_call x c with ⟨pids, nominated⟩ | ⟨pid, listed, pids, nominated⟩
  · refine ⟨started, h.settled.turn turn, ?_, fun pid hn => ?_⟩
    · rw [pids]
      exact h.distinct
    · rw [pids]
      exact h.alone pid (nominated.symm.trans hn)
  · refine ⟨started, h.settled.turn turn, ?_, fun q hn => ?_⟩
    · rw [pids]
      exact h.distinct.filter _
    · obtain rfl : pid = q := Option.some.inj (nominated.symm.trans hn)
      rw [pids, List.filter_eq, List.count_eq_one_of_mem h.distinct listed]
      rfl

theorem Orderly.calls (h : x.Orderly) (cs : List Call) : (x.calls cs).Orderly := by
  induction cs generalizing x with
  | nil => exact h
  | cons c cs ih => exact ih (h.call c)

theorem Orderly.nominated_calls (h : x.Orderly) (hn : x.nominated = some pid) (cs : List Call) :
    (x.calls cs).nominated = some pid := by
  induction cs generalizing x with
  | nil => exact hn
  | cons c cs ih => exact ih (h.call c) ((h.settled.turn_call h.started c).nominated hn)

theorem refused_elsewhere (hn : x.nominated = some pid) {c : Call} {q : PathId}
    (about : c.path? = some q) (hq : q ≠ pid) :
    ∃ fault, c.refuses fault = true ∧ x.call c = (.error fault, x) := by
  have away : x.strand? q = none := strand?_of_nominated hn hq
  cases c with
  | start | createFrame => cases about
  | addChunk p chunk =>
    obtain rfl : p = q := Option.some.inj about
    exact ⟨.unknownPath p, rfl, by simp [call, addChunk, away, Except.map]⟩
  | processFrame p now s =>
    obtain rfl : p = q := Option.some.inj about
    exact ⟨.unknownPath p, rfl, by simp [call, processFrame, away, Except.map]⟩
  | nominate p =>
    by_cases nominator : x.device.isNominator = true
    · exact ⟨.alreadyNominated, rfl, by simp [call, nominate, nominator, hn, Except.map]⟩
    · exact ⟨.notNominator, rfl, by simp [call, nominate, nominator, Except.map]⟩

/-! ### A path that has failed -/

def decodes (x : Exchange S) (pid : PathId) : Bool :=
  (x.strand? pid).any fun strand => (strand.inbox.next.1.toOption.bind id).isSome

theorem exists_of_decodes (h : x.decodes pid = true) :
    ∃ strand ciphertext inbox, x.strand? pid = some strand ∧
      strand.inbox.next = (.ok (some ciphertext), inbox) := by
  obtain ⟨strand, hs, hn⟩ := (Option.any_eq_true ..).1 h
  rcases next : strand.inbox.next with ⟨fault | _ | ciphertext, inbox⟩
  · rw [next] at hn; cases hn
  · rw [next] at hn; cases hn
  · exact ⟨strand, ciphertext, inbox, hs, next⟩

/-- The path has failed, or has been dropped since. -/
structure Failed (x : Exchange S) (pid : PathId) : Prop where
  started : x.started = true
  settled : x.Settled
  failed : ∀ strand, x.strand? pid = some strand → strand.stage = .failed

theorem Failed.turn {ys : List (PathId × Outcome)} (h : x.Failed pid) (t : x.Turn c ys x') :
    x'.Failed pid ∧ ∀ o, (pid, o) ∉ ys := by
  cases t with
  | still => exact ⟨h, fun o => List.not_mem_nil⟩
  | @turned q old new used o _ deed t =>
    by_cases hq : q = pid
    · subst hq
      have failed := h.failed old t.before
      obtain ⟨hn, rfl⟩ : new.stage = .failed ∧ o = none := by
        cases deed with
        | fed => exact ⟨failed, rfl⟩
        | refused | exhausted => exact ⟨rfl, rfl⟩
        | nominated | sent => cases failed
        | took next advance => cases advance <;> cases failed
      refine ⟨⟨t.started.trans h.started, h.settled.turned deed t, fun strand hs => ?_⟩, by simp⟩
      rw [← Option.some.inj (t.after.symm.trans hs)]
      exact hn
    · refine ⟨⟨t.started.trans h.started, h.settled.turned deed t, fun strand hs => ?_⟩,
        fun o hm => ?_⟩
      · rw [t.others pid (Ne.symm hq)] at hs
        split_ifs at hs
        exact h.failed strand hs
      · obtain ⟨o', -, he⟩ := List.mem_map.1 hm
        exact hq (Prod.mk.inj he).1

theorem Failed.call (h : x.Failed pid) (c : Call) :
    (x.call c).2.Failed pid ∧ ∀ o, (pid, o) ∉ x.yields c :=
  h.turn (h.settled.turn_call h.started c)

/-- The exchange has refused one frame: the frame is consumed, its path has failed, and nothing else has
changed. -/
structure Rejects (x : Exchange S) (pid : PathId) (x' : Exchange S) : Prop where
  taken : ∃ ciphertext rest stage, x' = x.put pid ⟨⟨rest⟩, .failed⟩ ∧ x.strand? pid =
    some ⟨⟨Frame.announce ciphertext.length ++ (ciphertext ++ rest)⟩, stage⟩
  failed : ∃ inbox, x'.strand? pid = some ⟨inbox, .failed⟩
  others : ∀ q, q ≠ pid → x'.strand? q = x.strand? q
  nominated : x'.nominated = x.nominated

theorem rejects_of_refused {now : Nat} {s : Entropy} (decodes : x.decodes pid = true)
    (refused : (x.processFrame pid now s).1 = .error fault) :
    x.Rejects pid (x.call (.processFrame pid now s)).2 := by
  obtain ⟨⟨inbox, stage⟩, ciphertext, ⟨rest⟩, hs, next⟩ := exists_of_decodes decodes
  have taken : Device.Taken S x.device pid now ciphertext stage _ := Device.step_cases (s := s) stage
  rcases taken with ⟨stage', o, hr, -⟩ | ⟨⟨fault, hr⟩, unused⟩
  · simp [processFrame, hs, next, hr] at refused
  · rw [call_of_refused hs next hr, unused, record_nil]
    obtain ⟨-, buffer⟩ := Reassembly.buffer_of_next next
    refine ⟨⟨ciphertext, rest, stage, rfl, ?_⟩, ⟨⟨rest⟩, ?_⟩, fun q hq => ?_, rfl⟩
    · rw [hs, ← buffer]
    · rw [strand?_put hs, if_pos rfl]
    · rw [strand?_put hs, if_neg hq]

theorem failed_of_refused (started : x.started = true) (settled : x.Settled) {now : Nat}
    {s : Entropy} {fault : EngineFault} (decodes : x.decodes pid = true)
    (refused : (x.processFrame pid now s).1 = .error fault) :
    (x.call (.processFrame pid now s)).2.Failed pid := by
  have turn := turn_processFrame x pid now s
  obtain ⟨inbox, after⟩ := (rejects_of_refused decodes refused).failed
  refine ⟨turn.started.trans started, settled.turn turn, fun strand hs => ?_⟩
  rw [← Option.some.inj (after.symm.trans hs)]

/-- A path that fails before it is nominated is never nominated. -/
theorem Failed.nominated (h : x.Failed pid) (c : Call) :
    (x.call c).2.nominated = some pid ↔ x.nominated = some pid := by
  have turn := h.settled.turn_call h.started c
  have failed := (h.call c).1
  constructor
  · intro hn
    generalize x.yields c = ys at turn
    generalize (x.call c).2 = x' at turn failed hn
    cases turn with
    | still => exact hn
    | @turned q old new used o _ deed t =>
      rw [t.nominated] at hn
      split_ifs at hn with elected
      · obtain rfl : q = pid := Option.some.inj hn
        rw [failed.failed new t.after] at elected
        cases elected
      · exact hn
  · exact turn.nominated

theorem Failed.calls (h : x.Failed pid) (cs : List Call) :
    (x.calls cs).Failed pid ∧ ((x.calls cs).nominated = some pid ↔ x.nominated = some pid) := by
  induction cs generalizing x with
  | nil => exact ⟨h, Iff.rfl⟩
  | cons c cs ih =>
    obtain ⟨failed, nominated⟩ := ih (h.call c).1
    exact ⟨failed, nominated.trans (h.nominated c)⟩

/-- After any calls on an exchange: a call that is refused changes nothing. A frame that is refused is
consumed and fails its path; the path yields nothing from then on, the other paths and the nomination
are unchanged. A nomination is final, and no other path can be reached after it. -/
theorem faults_contained {setup : Setup} {x₀ : Exchange S} (new : Exchange.new S setup = .ok x₀)
    (now : Nat) (s : Entropy) (cs : List Call) :
    let x := x₀.calls (.start now s :: cs)
    (∀ c fault, (x.call c).1 = .error fault → c.refuses fault = true → (x.call c).2 = x) ∧
    (∀ pid now s fault, x.decodes pid = true → (x.processFrame pid now s).1 = .error fault →
      let x' := (x.call (.processFrame pid now s)).2
      x.Rejects pid x' ∧ ∀ later, let y := x'.calls later
        (y.nominated = some pid ↔ x.nominated = some pid) ∧ ∀ c o, (pid, o) ∉ y.yields c) ∧
    ∀ pid, x.nominated = some pid → ∀ later, let y := x.calls later
      y.nominated = some pid ∧ y.pids = [pid] ∧
        ∀ c q, c.path? = some q → q ≠ pid →
          ∃ fault, c.refuses fault = true ∧ y.call c = (.error fault, y) := by
  intro x
  have orderly : x.Orderly := (orderly_start new now s).calls cs
  refine ⟨fun c fault => refused_still, ?_, ?_⟩
  · intro pid now s fault decodes refused x'
    have failed := failed_of_refused orderly.started orderly.settled decodes refused
    have rejects := rejects_of_refused decodes refused
    refine ⟨rejects, fun later => ?_⟩
    obtain ⟨still, nominated⟩ := failed.calls later
    exact ⟨nominated.trans (by rw [rejects.nominated]), fun c => (still.call c).2⟩
  · intro pid hn later y
    have named : y.nominated = some pid := orderly.nominated_calls hn later
    exact ⟨named, (orderly.calls later).alone pid named, fun c q => refused_elsewhere named⟩

/-- A responder with two paths. One is given a forged frame, the other goes through `plainLife`. -/
theorem faults_contained_plain :
    let x₀ : Exchange Suite.plain :=
      ⟨⟨.responder, true, Octets.zero 32⟩, [(7, .fresh), (8, .fresh)], false, none, []⟩
    let forged := Call.addChunk 8 (Frame.announce 1 ++ [0])
    let x := x₀.calls [.start 0 (.cycle [1]), forged]
    let x' := (x.call (.processFrame 8 0 (.cycle []))).2
    let y := x₀.calls
      (.start 0 (.cycle [1]) :: forged :: .processFrame 8 0 (.cycle []) :: plainLife.drop 2)
    Exchange.new Suite.plain ⟨.responder, true, Octets.zero 32, [7, 8]⟩ = .ok x₀ ∧
      ((x.call (.createFrame [1])).1 = .error .notNominated ∧ (x.call (.createFrame [1])).2 = x) ∧
      (x.decodes 8 = true ∧ x.Rejects 8 x' ∧
        ∀ later c o, (8, o) ∉ (x'.calls later).yields c) ∧
      y.nominated = some 7 ∧ ∀ later, (y.calls later).pids = [7] := by
  intro x₀ forged x x' y
  have new : Exchange.new Suite.plain ⟨.responder, true, Octets.zero 32, [7, 8]⟩ = .ok x₀ := by
    have sorted : [7, 8].mergeSort (fun p q : PathId => decide (p ≤ q)) = [7, 8] :=
      List.mergeSort_of_pairwise (by decide)
    simp [Exchange.new, x₀, sorted]
  have early : (x.call (.createFrame [1])).1 = .error .notNominated := by decide +kernel
  have decodes : x.decodes 8 = true := by decide +kernel
  have refused : (x.processFrame 8 0 (.cycle [])).1 = .error (.crypto .decryptionFailed) := by
    decide +kernel
  have named : y.nominated = some 7 := by decide +kernel
  obtain ⟨still, rejects, -⟩ := faults_contained new 0 (.cycle [1]) [forged]
  obtain ⟨-, -, alone⟩ := faults_contained new 0 (.cycle [1])
    (forged :: .processFrame 8 0 (.cycle []) :: plainLife.drop 2)
  obtain ⟨gone, silent⟩ := rejects 8 0 (.cycle []) _ decodes refused
  exact ⟨new, ⟨early, still _ _ early rfl⟩, ⟨decodes, gone, fun later => (silent later).2⟩, named,
    fun later => (alone 7 named later).2.1⟩

end Exchange

end PathRace
