import PathRace.Proofs.Channel.Delivery

/-! Payloads of any length. `send` refuses one that is too long for a frame, after its lane has
advanced, and the peer's lane does not advance. The peer takes what was sealed before the first refusal
and nothing that is sealed after it (`heard_until_refused`). -/

namespace PathRace

namespace Lane

variable {S : Suite}

/-- What is sealed under one counter value of a lane opens under no other. -/
def Binds (S : Suite) (l : Lane) : Prop :=
  ∀ (i j : UInt64) (p : Bytes), i ≠ j →
    S.decrypt l.key (Nonce.make l.pid l.direction j)
      (S.encrypt l.key (Nonce.make l.pid l.direction i) p) = none

theorem length_ulp (data : Bytes) :
    (Message.ulp data).encode.length + Limit.tagSize = data.length + 17 := rfl

theorem send_of_long {l : Lane} {data : Bytes} (hl : l.isExhausted = false)
    (long : Limit.frame - 17 < data.length) :
    l.send S (.ulp data) = ⟨.error (.frameTooLarge (data.length + 17) Limit.frame), l.advance,
      [l.sealing (Message.ulp data).encode]⟩ := by
  have frame : Limit.frame = Limit.frame - 17 + 17 := by decide
  have beyond : Limit.frame < data.length + 17 := by omega
  simp only [send, hl, Bool.false_eq_true, if_false, length_ulp, beyond, if_true]

end Lane

namespace Exchange

variable {S : Suite} {x y : Exchange S} {pid : PathId} {inbox : Reassembly} {t u : Transport}

/-! ### One end -/

/-- Sends payloads in order, with the result of each. -/
def sendAll : List Bytes → Exchange S → List (Bytes × Except EngineFault Outcome)
  | [], _ => []
  | data :: rest, x => (data, (x.createFrame data).1) :: sendAll rest (x.createFrame data).2

/-- The payloads that were made into frames. -/
def accepted (log : List (Bytes × Except EngineFault Outcome)) : List Bytes :=
  log.filterMap fun e => e.2.toOption.map fun _ => e.1

def frames (log : List (Bytes × Except EngineFault Outcome)) : List Bytes :=
  log.filterMap fun e => e.2.toOption.bind Outcome.out

/-- Whether a payload was not refused for its length. -/
def passes : Bytes × Except EngineFault Outcome → Bool
  | (_, .error (.frameTooLarge ..)) => false
  | _ => true

section

variable {data : Bytes} {rest : List Bytes} {log : List (Bytes × Except EngineFault Outcome)}

theorem sendAll_cons {x' : Exchange S} {result : Except EngineFault Outcome}
    (made : x.createFrame data = (result, x')) :
    x.sendAll (data :: rest) = (data, result) :: x'.sendAll rest := by
  simp only [sendAll, made]

@[simp] theorem accepted_ok (o : Outcome) : accepted ((data, .ok o) :: log) = data :: accepted log :=
  rfl

@[simp] theorem accepted_error (fault : EngineFault) :
    accepted ((data, .error fault) :: log) = accepted log := rfl

@[simp] theorem frames_ok (frame : Bytes) :
    frames ((data, .ok (.frame frame)) :: log) = frame :: frames log := rfl

@[simp] theorem frames_error (fault : EngineFault) :
    frames ((data, .error fault) :: log) = frames log := rfl

@[simp] theorem passes_ok (o : Outcome) : passes (data, .ok o) = true := rfl

@[simp] theorem passes_crypto (fault : CryptoFault) :
    passes (data, .error (.crypto fault)) = true := rfl

@[simp] theorem passes_long (length max : Nat) :
    passes (data, .error (.frameTooLarge length max)) = false := rfl

theorem accepted_split (log : List (Bytes × Except EngineFault Outcome)) : accepted log =
    accepted (log.takeWhile passes) ++ accepted (log.dropWhile passes) := by
  conv_lhs => rw [← List.takeWhile_append_dropWhile (p := passes) (l := log)]
  exact List.filterMap_append

end

theorem Carries.createFrame_worn (h : x.Carries pid inbox t) (worn : t.tx.isExhausted = true)
    (data : Bytes) : ∃ x', x.createFrame data = (.error (.crypto .counterExhaustion), x') ∧
      x'.Carries pid inbox t := by
  refine ⟨_, ?_, h.put inbox t []⟩
  simp [Exchange.createFrame, h.nominated, h.strand, Lane.send_of_exhausted worn, Except.map]

theorem Carries.createFrame_long (h : x.Carries pid inbox t) (fresh : t.tx.isExhausted = false)
    {data : Bytes} (long : Limit.frame - 17 < data.length) :
    ∃ x', x.createFrame data = (.error (.frameTooLarge (data.length + 17) Limit.frame), x') ∧
      x'.Carries pid inbox { t with tx := t.tx.advance } := by
  refine ⟨_, ?_, h.put inbox { t with tx := t.tx.advance } [t.tx.sealing (Message.ulp data).encode]⟩
  simp [Exchange.createFrame, h.nominated, h.strand, Lane.send_of_long fresh long, Except.map,
    Exchange.put, record]

theorem Carries.createFrame_cases (h : x.Carries pid inbox t) (data : Bytes) : ∃ x',
    (x.createFrame data = (.error (.crypto .counterExhaustion), x') ∧ x'.Carries pid inbox t) ∨
    (t.tx.isExhausted = false ∧ x'.Carries pid inbox { t with tx := t.tx.advance } ∧
      ((Limit.frame - 17 < data.length ∧
          x.createFrame data = (.error (.frameTooLarge (data.length + 17) Limit.frame), x')) ∨
        (data.length ≤ Limit.frame - 17 ∧
          x.createFrame data = (.ok (.frame (t.tx.framed S (.ulp data))), x')))) := by
  cases hl : t.tx.isExhausted with
  | true =>
    obtain ⟨x', made, carries⟩ := h.createFrame_worn hl data
    exact ⟨x', .inl ⟨made, carries⟩⟩
  | false =>
    by_cases long : Limit.frame - 17 < data.length
    · obtain ⟨x', made, carries⟩ := h.createFrame_long hl long
      exact ⟨x', .inr ⟨rfl, carries, .inl ⟨long, made⟩⟩⟩
    · have short := not_lt.1 long
      obtain ⟨x', made, carries⟩ := h.createFrame hl (Lane.fits_ulp short)
      exact ⟨x', .inr ⟨rfl, carries, .inr ⟨short, made⟩⟩⟩

/-! ### The other end -/

/-- Feeds one frame to a path and processes it. -/
def hear (pid : PathId) (f : Bytes × Nat × Entropy) (y : Exchange S) :
    Except EngineFault (Option Outcome) × Exchange S :=
  let (frame, now, s) := f
  let (result, y, _) := (y.addChunk pid frame).2.processFrame pid now s
  (result, y)

def hearAll (pid : PathId) :
    List (Bytes × Nat × Entropy) → Exchange S → List (Except EngineFault (Option Outcome))
  | [], _ => []
  | f :: rest, y => (y.hear pid f).1 :: hearAll pid rest (y.hear pid f).2

theorem next_of_framed {l : Lane} {m : Message} (fits : Lane.Fits m) :
    (Reassembly.empty.push (l.framed S m)).next =
      (.ok (some (S.encrypt l.key l.nonce m.encode)), Reassembly.empty) := by
  have length := S.length_encrypt l.key l.nonce m.encode
  refine Reassembly.next_of_whole (by rw [length]; exact fits) ?_
  rw [length, List.append_nil]
  rfl

theorem Carries.hear (h : y.Carries pid Reassembly.empty u) (fresh : u.rx.isExhausted = false)
    {data : Bytes} (fits : Lane.Fits (.ulp data)) (now : Nat) (s : Entropy) :
    ∃ y', y.hear pid (u.rx.framed S (.ulp data), now, s) = (.ok (some (.data data)), y') ∧
      y'.Carries pid Reassembly.empty { u with rx := u.rx.advance } := by
  obtain ⟨y₁, fed, carries⟩ := h.addChunk (u.rx.framed S (.ulp data))
  obtain ⟨y₂, taken, carries⟩ := carries.processFrame_some (next_of_framed fits)
    (Lane.receive_encrypt fresh (.ulp data)) now s
  have fed : y.addChunk pid (u.rx.framed S (.ulp data)) = (.ok (), y₁) := fed
  have taken : y₁.processFrame pid now s = (.ok (some (.data data)), y₂, s) := taken
  exact ⟨y₂, by simp only [Exchange.hear, fed, taken], carries⟩

theorem hear_of_refused {stage : Stage} (hs : y.strand? pid = some ⟨Reassembly.empty, stage⟩)
    {l : Lane} {m : Message} (fits : Lane.Fits m) (now : Nat) (s : Entropy) {fault : EngineFault}
    (refused : (y.device.step S pid now stage (S.encrypt l.key l.nonce m.encode) s).result =
      .error fault) :
    ∃ y', y.hear pid (l.framed S m, now, s) = (.error fault, y') ∧
      y'.strand? pid = some ⟨Reassembly.empty, .failed⟩ := by
  let y₁ := y.put pid ⟨Reassembly.empty.push (l.framed S m), stage⟩
  have fed : y.addChunk pid (l.framed S m) = (.ok (), y₁) := by simp [addChunk, hs, y₁]
  have before : y₁.strand? pid = some ⟨Reassembly.empty.push (l.framed S m), stage⟩ := by
    rw [strand?_put hs, if_pos rfl]
  have same : y₁.device = y.device := rfl
  let used := (y.device.step S pid now stage (S.encrypt l.key l.nonce m.encode) s).used
  refine ⟨(y₁.record used).put pid ⟨Reassembly.empty, .failed⟩, ?_, ?_⟩
  · simp only [hear, fed, processFrame, before, next_of_framed fits, same, refused, used]
  · rw [strand?_put (x := y₁.record used) before, if_pos rfl]

/-! ### From one end to the other -/

theorem results_of_sendAll (hx : x.Carries pid inbox t) (payloads : List Bytes) :
    ∀ e ∈ x.sendAll payloads, e.2 = .error (.crypto .counterExhaustion) ∨
      if Limit.frame - 17 < e.1.length then
        e.2 = .error (.frameTooLarge (e.1.length + 17) Limit.frame)
      else ∃ l : Lane, e.2 = .ok (.frame (l.framed S (.ulp e.1))) := by
  induction payloads generalizing x t with
  | nil => intro e he; cases he
  | cons data rest ih =>
    obtain ⟨x', ⟨made, carries⟩ | ⟨-, carries, ⟨long, made⟩ | ⟨short, made⟩⟩⟩ :=
      hx.createFrame_cases data
    all_goals
      rw [sendAll_cons made]
      refine List.forall_mem_cons.2 ⟨?_, ih carries⟩
    · exact .inl rfl
    · exact .inr (by rw [if_pos long])
    · exact .inr (by rw [if_neg (not_lt.2 short)]; exact ⟨t.tx, rfl⟩)

theorem framed_of_mem (hx : x.Carries pid inbox t) {payloads : List Bytes} {f : Bytes}
    (hf : f ∈ frames (x.sendAll payloads)) :
    ∃ (l : Lane) (data : Bytes), f = l.framed S (.ulp data) ∧ Lane.Fits (.ulp data) := by
  obtain ⟨e, he, made⟩ := List.mem_filterMap.1 hf
  rcases results_of_sendAll hx payloads _ he with worn | others
  · rw [worn] at made
    cases made
  · split_ifs at others with long
    · rw [others] at made
      cases made
    · obtain ⟨l, framed⟩ := others
      rw [framed] at made
      exact ⟨l, e.1, (Option.some.inj made).symm, Lane.fits_ulp (not_lt.1 long)⟩

theorem length_frames (hx : x.Carries pid inbox t) (payloads : List Bytes) :
    (frames (x.sendAll payloads)).length = (accepted (x.sendAll payloads)).length := by
  induction payloads generalizing x t with
  | nil => rfl
  | cons data rest ih =>
    obtain ⟨x', ⟨made, carries⟩ | ⟨-, carries, ⟨-, made⟩ | ⟨-, made⟩⟩⟩ := hx.createFrame_cases data
    all_goals
      rw [sendAll_cons made]
      simpa using ih carries

theorem length_hearAll (fed : List (Bytes × Nat × Entropy)) :
    (y.hearAll pid fed).length = fed.length := by
  induction fed generalizing y with
  | nil => rfl
  | cons f fed ih => simp only [hearAll, List.length_cons, ih]

theorem hearAll_cons {f : Bytes × Nat × Entropy} {fed : List (Bytes × Nat × Entropy)}
    {result : Except EngineFault (Option Outcome)} {y' : Exchange S}
    (heard : y.hear pid f = (result, y')) :
    y.hearAll pid (f :: fed) = result :: y'.hearAll pid fed := by
  simp only [hearAll, heard]

theorem deaf_of_failed (hs : y.strand? pid = some ⟨Reassembly.empty, .failed⟩)
    (fed : List (Bytes × Nat × Entropy))
    (whole : ∀ f ∈ fed, ∃ (l : Lane) (data : Bytes),
      f.1 = l.framed S (.ulp data) ∧ Lane.Fits (.ulp data)) :
    ∀ r ∈ y.hearAll pid fed, ∃ fault, r = .error fault := by
  induction fed generalizing y with
  | nil => intro r hr; cases hr
  | cons f rest ih =>
    obtain ⟨frame, now, s⟩ := f
    obtain ⟨⟨l, data, framed, fits⟩, whole'⟩ := List.forall_mem_cons.1 whole
    obtain rfl : frame = l.framed S (.ulp data) := framed
    obtain ⟨y', heard, failed⟩ := hear_of_refused hs fits now s rfl
    rw [hearAll_cons heard]
    exact List.forall_mem_cons.2 ⟨⟨_, rfl⟩, ih failed whole'⟩

/-- After the counters have come apart, no further frame opens. -/
theorem deaf_of_behind (hx : x.Carries pid inbox t) (hy : y.Carries pid Reassembly.empty u)
    (lane : u.rx = { t.tx with counter := u.rx.counter })
    (behind : u.rx.counter.toNat < t.tx.counter.toNat) (binds : t.tx.Binds S) (payloads : List Bytes)
    {fed : List (Bytes × Nat × Entropy)} (returned : fed.map Prod.fst = frames (x.sendAll payloads)) :
    ∀ r ∈ y.hearAll pid fed, ∃ fault, r = .error fault := by
  induction payloads generalizing x t with
  | nil =>
    obtain rfl : fed = [] := List.map_eq_nil_iff.1 returned
    intro r hr
    cases hr
  | cons data rest ih =>
    obtain ⟨x', ⟨made, carries⟩ | ⟨fresh, carries, sent⟩⟩ := hx.createFrame_cases data
    · rw [sendAll_cons made, frames_error] at returned
      exact ih carries lane behind binds returned
    · rcases sent with ⟨-, made⟩ | ⟨short, made⟩
      · rw [sendAll_cons made, frames_error] at returned
        refine ih carries lane ?_ binds returned
        rw [Lane.counter_advance fresh]
        exact Nat.lt_succ_of_lt behind
      · rw [sendAll_cons made, frames_ok] at returned
        obtain ⟨⟨frame, now, s⟩, fed', rfl, framed, returned'⟩ := List.map_eq_cons_iff.1 returned
        obtain rfl : frame = t.tx.framed S (.ulp data) := framed
        -- the frame bears a number that is not the one expected
        have other : t.tx.counter ≠ u.rx.counter := fun he => (he ▸ behind).ne rfl
        have closed : S.decrypt u.rx.key u.rx.nonce
            (S.encrypt t.tx.key t.tx.nonce (Message.ulp data).encode) = none := by
          rw [lane]
          exact binds _ _ _ other
        obtain ⟨fault, refused⟩ : ∃ fault, (y.device.step S pid now (.nominated u)
            (S.encrypt t.tx.key t.tx.nonce (Message.ulp data).encode) s).result = .error fault := by
          cases hl : u.rx.isExhausted <;>
            simp [Device.step, Device.onUlp, Lane.receive, Lane.decrypt, hl, closed]
        obtain ⟨y', heard, failed⟩ := hear_of_refused hy.strand (Lane.fits_ulp short) now s refused
        rw [hearAll_cons heard]
        refine List.forall_mem_cons.2 ⟨⟨_, rfl⟩, deaf_of_failed failed fed' fun f hf => ?_⟩
        have returned_f : f.1 ∈ frames (x'.sendAll rest) := returned' ▸ List.mem_map_of_mem hf
        exact framed_of_mem carries returned_f

/-- As long as no payload is too long, every frame opens at the other device. -/
theorem heard_before (hx : x.Carries pid inbox t) (hy : y.Carries pid Reassembly.empty u)
    (keys : u.rx = t.tx) (payloads : List Bytes) {fed : List (Bytes × Nat × Entropy)}
    (returned : fed.map Prod.fst = frames (x.sendAll payloads)) :
    ∃ rest, y.hearAll pid fed = (accepted ((x.sendAll payloads).takeWhile passes)).map
        (fun data => .ok (some (.data data))) ++ rest ∧
      rest.length = (accepted ((x.sendAll payloads).dropWhile passes)).length ∧
      (t.tx.Binds S → ∀ r ∈ rest, ∃ fault, r = .error fault) := by
  induction payloads generalizing x y t u fed with
  | nil =>
    obtain rfl : fed = [] := List.map_eq_nil_iff.1 returned
    exact ⟨[], rfl, rfl, fun _ r hr => nomatch hr⟩
  | cons data payloads ih =>
    obtain ⟨x', ⟨made, carries⟩ | ⟨fresh, carries, sent⟩⟩ := hx.createFrame_cases data
    · rw [sendAll_cons made] at returned ⊢
      rw [List.takeWhile_cons_of_pos (passes_crypto _), List.dropWhile_cons_of_pos (passes_crypto _)]
      exact ih carries hy keys returned
    · rcases sent with ⟨-, made⟩ | ⟨short, made⟩
      · rw [sendAll_cons made] at returned ⊢
        rw [frames_error] at returned
        have refused :
            ¬ passes (data, .error (.frameTooLarge (data.length + 17) Limit.frame)) = true := by simp
        rw [List.takeWhile_cons_of_neg refused, List.dropWhile_cons_of_neg refused]
        refine ⟨y.hearAll pid fed, rfl, ?_, fun binds => ?_⟩
        · rw [length_hearAll, accepted_error, ← length_frames carries, ← returned, List.length_map]
        · -- from here on the sender is one number ahead
          have ahead : u.rx.counter.toNat < t.tx.advance.counter.toNat := by
            rw [keys, Lane.counter_advance fresh]
            exact Nat.lt_succ_self _
          exact deaf_of_behind carries hy (by rw [keys]; rfl) ahead binds payloads returned
      · rw [sendAll_cons made] at returned ⊢
        rw [List.takeWhile_cons_of_pos (passes_ok _), List.dropWhile_cons_of_pos (passes_ok _)]
        obtain ⟨⟨frame, now, s⟩, fed', rfl, framed, returned'⟩ := List.map_eq_cons_iff.1 returned
        obtain rfl : frame = u.rx.framed S (.ulp data) := keys ▸ framed
        obtain ⟨y', heard, carries'⟩ := hy.hear (keys ▸ fresh) (Lane.fits_ulp short) now s
        obtain ⟨rest, hears, length, deaf⟩ :=
          ih carries carries' (congrArg Lane.advance keys) returned'
        refine ⟨rest, ?_, length, deaf⟩
        rw [hearAll_cons heard, hears, accepted_ok, List.map_cons, List.cons_append]

/-- Payloads of any length, and which of their frames open at the other device. Those accepted before
the first payload that is too long open, so all of them do if nothing is accepted after it. Otherwise no
later frame opens, provided that a ciphertext opens only under its own counter value. -/
theorem heard_until_refused (hx : x.Carries pid inbox t) (hy : y.Carries pid Reassembly.empty u)
    (keys : u.rx = t.tx) (payloads : List Bytes) {fed : List (Bytes × Nat × Entropy)}
    (returned : fed.map Prod.fst = frames (x.sendAll payloads)) :
    let log := x.sendAll payloads
    let heard (l : List Bytes) : List (Except EngineFault (Option Outcome)) :=
      l.map fun data => .ok (some (.data data))
    (∀ e ∈ log, e.2 = .error (.crypto .counterExhaustion) ∨
      if Limit.frame - 17 < e.1.length then
        e.2 = .error (.frameTooLarge (e.1.length + 17) Limit.frame)
      else ∃ l : Lane, e.2 = .ok (.frame (l.framed S (.ulp e.1)))) ∧
    (accepted (log.dropWhile passes) = [] → y.hearAll pid fed = heard (accepted log)) ∧
    ∃ rest, y.hearAll pid fed = heard (accepted (log.takeWhile passes)) ++ rest ∧
      rest.length = (accepted (log.dropWhile passes)).length ∧
      (t.tx.Binds S → ∀ r ∈ rest, ∃ fault, r = .error fault) := by
  intro log heard
  obtain ⟨rest, hears, length, deaf⟩ := heard_before hx hy keys payloads returned
  refine ⟨results_of_sendAll hx payloads, fun nothing => ?_, rest, hears, length, deaf⟩
  obtain rfl : rest = [] := List.eq_nil_of_length_eq_zero (by rw [length]; exact congrArg _ nothing)
  rw [hears, accepted_split log, nothing, List.append_nil, List.append_nil]

theorem plain_binds (l : Lane) : l.Binds Suite.plain := by
  intro i j p hij
  have other : Suite.plainTag l.key (Nonce.make l.pid l.direction i) ≠
      Suite.plainTag l.key (Nonce.make l.pid l.direction j) := fun he => hij (Suite.plainTag_inj he)
  simp [Suite.plain, Suite.length_plainTag, other]

/-- One byte longer than a frame allows. -/
def plainLong : Bytes := List.replicate (Limit.frame - 16) 0

theorem length_plainLong : Limit.frame - 17 < plainLong.length := by
  rw [plainLong, List.length_replicate]
  decide

theorem fits_byte (b : UInt8) : Lane.Fits (.ulp [b]) := by
  simp [Lane.Fits, Message.encode, Limit.tagSize, Limit.frame]

theorem carries_plainEngine (r : Role) :
    (Channel.plainEngine r).Carries 7 Reassembly.empty (Channel.plainTransport r) := by
  cases r <;> exact ⟨by decide +kernel, by decide +kernel⟩

/-- The second of three payloads is too long. -/
theorem heard_until_refused_plain :
    let x := Channel.plainEngine .initiator
    let y := Channel.plainEngine .responder
    let tx := (Channel.plainTransport .initiator).tx
    let payloads := [[5], plainLong, [1]]
    let fed := [(tx.framed Suite.plain (.ulp [5]), 0, Entropy.cycle []),
      (tx.advance.advance.framed Suite.plain (.ulp [1]), 0, Entropy.cycle [])]
    fed.map Prod.fst = frames (x.sendAll payloads) ∧ accepted (x.sendAll payloads) = [[5], [1]] ∧
      ∃ fault, y.hearAll 7 fed = [.ok (some (.data [5])), .error fault] := by
  intro x y tx payloads fed
  obtain ⟨x₁, first, carries⟩ := (carries_plainEngine .initiator).createFrame (by decide)
    (fits_byte 5)
  obtain ⟨x₂, second, carries⟩ := carries.createFrame_long (by decide) length_plainLong
  obtain ⟨x₃, third, -⟩ := carries.createFrame (by decide) (fits_byte 1)
  have log : x.sendAll payloads = [([5], .ok (.frame (tx.framed Suite.plain (.ulp [5])))),
      (plainLong, .error (.frameTooLarge (plainLong.length + 17) Limit.frame)),
      ([1], .ok (.frame (tx.advance.advance.framed Suite.plain (.ulp [1]))))] := by
    rw [sendAll_cons first, sendAll_cons second, sendAll_cons third]
    rfl
  have returned : fed.map Prod.fst = frames (x.sendAll payloads) := by rw [log]; rfl
  obtain ⟨-, -, rest, hears, length, deaf⟩ := heard_until_refused (carries_plainEngine .initiator)
    (carries_plainEngine .responder) rfl payloads returned
  rw [log] at hears length
  obtain ⟨r, rfl⟩ := List.length_eq_one_iff.1 length
  obtain ⟨fault, rfl⟩ := deaf (plain_binds _) r List.mem_cons_self
  exact ⟨returned, by rw [log]; rfl, fault, hears⟩

/-- The payload after one that is too long is accepted, but its frame does not open. -/
theorem accepted_but_not_heard :
    let x := Channel.plainEngine .initiator
    let y := Channel.plainEngine .responder
    let frame := (Channel.plainTransport .initiator).tx.advance.framed Suite.plain (.ulp [1])
    x.sendAll [plainLong, [1]] = [(plainLong, .error (.frameTooLarge (Limit.frame + 1) Limit.frame)),
        ([1], .ok (.frame frame))] ∧
      y.hearAll 7 [(frame, 0, .cycle [])] = [.error (.crypto .decryptionFailed)] := by
  intro x y frame
  obtain ⟨x₁, first, carries⟩ :=
    (carries_plainEngine .initiator).createFrame_long (by decide) length_plainLong
  obtain ⟨x₂, second, -⟩ := carries.createFrame (by decide) (fits_byte 1)
  have length : plainLong.length + 17 = Limit.frame + 1 := by
    rw [plainLong, List.length_replicate]
    decide
  refine ⟨?_, by decide +kernel⟩
  rw [sendAll_cons first, sendAll_cons second, length]
  rfl

end Exchange

end PathRace
