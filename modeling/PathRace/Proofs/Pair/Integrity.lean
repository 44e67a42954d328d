import PathRace.Proofs.Exchange.Containment
import PathRace.Proofs.Pair.Agreement
import PathRace.Proofs.Pair.Rows

/-! Integrity of payloads under an arbitrary network. Each device has a row of messages for each path,
indexed by sequence number; the payloads its peer yields are a prefix of that row (`Ledger`). -/

namespace PathRace

namespace Pair

variable {S : Suite}

/-- The payload that a call makes into a frame. -/
def made (r : Role) (w : Pair S) : Role × Call → List Bytes
  | (q, .createFrame data) =>
    if q = r ∧ ((w.engine q).createFrame data).1.toOption.isSome then [data] else []
  | _ => []

/-- The payload that a call returns. -/
def returned (r : Role) (w : Pair S) : Role × Call → List Bytes
  | (q, .processFrame pid now s) =>
    if q = r then
      match ((w.engine q).processFrame pid now s).1 with
      | .ok (some o) => o.ulp.toList
      | _ => []
    else []
  | _ => []

/-- The concatenated results of all calls of a run. -/
def history (f : Pair S → Role × Call → List Bytes) : List (Role × Call) → Pair S → List Bytes
  | [], _ => []
  | m :: ms, w => f w m ++ history f ms (w.after m)

/-- The messages sent on each path, the payloads made into frames and the payloads returned agree. -/
structure Ledger (w : Pair S) (row : Role → PathId → List Message) (out got : Role → List Bytes) :
    Prop where
  role : ∀ r, (w.engine r).device.role = r
  settled : ∀ r, (w.engine r).Settled
  waiting : ∀ r, (w.engine r).started = false → (w.engine r).Waiting ∧ ∀ pid, row r pid = []
  nonces : ∀ r, ∀ u ∈ (w.engine r).used, ∃ pid i m, u.nonce = Nonce.make pid (.outbound r) i ∧
    u.plaintext = Message.encode m ∧ (m.key? = none → (row r pid)[i.toNat]? = some m)
  on : ∀ r pid strand, (w.engine r).strand? pid = some strand → strand.stage.On r pid
  sent : ∀ r pid strand, (w.engine r).strand? pid = some strand → strand.stage.Sent (row r pid)
  taken : ∀ r pid strand, (w.engine r).strand? pid = some strand →
    strand.stage.Got (row r.peer pid) (got r)
  late : ∀ r pid, payloads (row r pid) ≠ [] → (w.engine r).nominated = some pid
  given : ∀ r, out r = (w.engine r).nominated.elim [] fun pid =>
    (payloads (row r pid)).filter fun data => Lane.Fits (.ulp data)
  within : ∀ r, got r <+: (w.engine r).nominated.elim [] fun pid => payloads (row r.peer pid)
  short : ∀ r, ∀ data ∈ got r, Lane.Fits (.ulp data)
  named : ∀ r pid, (w.engine r).nominated = some pid → ∃ hash, w.Reported r pid hash

variable {w : Pair S} {row : Role → PathId → List Message} {out got : Role → List Bytes}

/-- The payloads returned are a prefix of those the peer has made into frames. -/
theorem Ledger.leads (h : w.Ledger row out got) (r : Role) : got r <+: out r.peer := by
  have within := h.within r
  cases hn : (w.engine r).nominated with
  | none =>
    rw [hn] at within
    rw [List.prefix_nil.1 within]
    exact List.nil_prefix
  | some pid =>
    rw [hn] at within
    by_cases none : payloads (row r.peer pid) = []
    · simp only [Option.elim_some, none] at within
      rw [List.prefix_nil.1 within]
      exact List.nil_prefix
    · have all : (got r).filter (fun data => Lane.Fits (.ulp data)) = got r :=
        List.filter_eq_self.2 fun data hd => decide_eq_true (h.short r data hd)
      rw [h.given r.peer, h.late r.peer pid none, ← all]
      exact within.filter _

/-- The next frame that a path opens is the next message of the peer. -/
theorem Ledger.reads (h : w.Ledger row out got) {r : Role} {pid : PathId} {now : Nat} {s : Entropy}
    (auth : w.Authentic (r, .processFrame pid now s)) {old : Strand}
    (hs : (w.engine r).strand? pid = some old) :
    Exchange.Reads S (w.engine r).device pid old (row r.peer pid) := by
  intro inbox ciphertext m lane lane' next inbound opened key
  obtain ⟨oldInbox, stage⟩ := old
  have opening := opening_of_next hs next now s
  rw [inbound] at opening
  obtain ⟨path, direction⟩ := Exchange.inbound_on inbound (h.role r) (h.on r pid _ hs)
  have nonces (q : Role) (u : Sealing) (hu : u ∈ (w.engine q).used) : ∃ pid count m,
      u.nonce = Nonce.make pid (.outbound q) count ∧ u.plaintext = Message.encode m := by
    obtain ⟨pid, i, m, hn, hp, -⟩ := h.nonces q u hu
    exact ⟨pid, i, m, hn, hp⟩
  obtain ⟨u, hu, nonce, plain, length⟩ := origin_of_receive nonces auth opening opened direction
  obtain ⟨pid', i, m', nonce', plain', item⟩ := h.nonces r.peer u hu
  obtain ⟨rfl, -, rfl⟩ := Nonce.make_inj (nonce'.symm.trans nonce)
  obtain rfl := Message.encode_injective (plain'.symm.trans plain)
  rw [path] at item
  refine ⟨item key, ?_⟩
  rw [Lane.Fits, ← length]
  exact Reassembly.length_of_next next

/-! ### A turn -/

def grow (row : Role → PathId → List Message) (r : Role) (pid : PathId) (added : List Message) :
    Role → PathId → List Message :=
  fun q p => if q = r ∧ p = pid then row q p ++ added else row q p

@[simp] theorem grow_self (row : Role → PathId → List Message) (r : Role) (pid : PathId)
    (added : List Message) : grow row r pid added r pid = row r pid ++ added := by simp [grow]

theorem grow_of_not {r q : Role} {pid p : PathId} (h : ¬ (q = r ∧ p = pid)) (added : List Message) :
    grow row r pid added q p = row q p := by simp [grow, h]

theorem grow_of_ne {r q : Role} {pid p : PathId} (h : q ≠ r) (added : List Message) :
    grow row r pid added q p = row q p := grow_of_not (fun same => h same.1) added

theorem grow_append (row : Role → PathId → List Message) (r q : Role) (pid p : PathId)
    (added : List Message) : ∃ more, grow row r pid added q p = row q p ++ more := by
  unfold grow
  split_ifs
  · exact ⟨added, rfl⟩
  · exact ⟨[], (List.append_nil _).symm⟩

section

variable {r : Role} {c : Call} {pid : PathId} {old new : Strand} {used : List Sealing}
  {o : Option Outcome} {x' : Exchange S} {added : List Message}

theorem strand?_set (t : Exchange.Turned (w.engine r) x' pid old new used)
    {ys : List (PathId × Outcome)} {q : Role} {p : PathId} {strand : Strand}
    (hs : ((w.set r x' ys).engine q).strand? p = some strand) :
    (q = r ∧ p = pid ∧ strand = new) ∨
      (¬ (q = r ∧ p = pid) ∧ (w.engine q).strand? p = some strand) := by
  by_cases hq : q = r
  · subst hq
    rw [engine_set_self] at hs
    by_cases hp : p = pid
    · subst hp
      exact .inl ⟨rfl, rfl, Option.some.inj (hs.symm.trans t.after)⟩
    · rw [t.others p hp] at hs
      split_ifs at hs
      exact .inr ⟨fun same => hp same.2, hs⟩
  · rw [engine_set_of_ne w hq] at hs
    exact .inr ⟨fun same => hq same.1, hs⟩

theorem nominated_turned {x : Exchange S} (t : Exchange.Turned x x' pid old new used) :
    (x.nominated = some pid ∧ x'.nominated = some pid) ∨
      (x.nominated = none ∧ x'.nominated = if new.stage.isNominated then some pid else none) := by
  rw [t.nominated]
  rcases Exchange.nominated_of_strand? t.before with hn | hn
  · rw [hn]
    exact .inr ⟨rfl, rfl⟩
  · rw [hn]
    exact .inl ⟨rfl, by simp⟩

theorem nominated_set (t : Exchange.Turned (w.engine r) x' pid old new used)
    (ys : List (PathId × Outcome)) {q : Role} {p : PathId} (named : (w.engine q).nominated = some p) :
    ((w.set r x' ys).engine q).nominated = some p := by
  by_cases hq : q = r
  · subst hq
    rw [engine_set_self]
    rcases nominated_turned t with ⟨hn, hn'⟩ | ⟨hn, -⟩
    · rw [hn', ← hn, named]
    · rw [named] at hn; cases hn
  · rw [engine_set_of_ne w hq]
    exact named

theorem Ledger.none_of_ready (h : w.Ledger row out got)
    (hs : (w.engine r).strand? pid = some old) (waits : old.stage.isNominated = false)
    (works : old.stage ≠ .failed) : (w.engine r).nominated = none ∧ got r = [] := by
  have unnamed : (w.engine r).nominated = none := by
    refine (Exchange.nominated_of_strand? hs).resolve_right fun hn => ?_
    rcases (h.settled r).stays pid old hn hs with nominated | failed
    · rw [waits] at nominated; cases nominated
    · exact works failed
  have within := h.within r
  rw [unnamed] at within
  exact ⟨unnamed, List.prefix_nil.1 within⟩

theorem Ledger.nonces_set (h : w.Ledger row out got)
    (t : Exchange.Turned (w.engine r) x' pid old new used)
    (writes : Exchange.Writes r pid (row r pid) added c old.stage new.stage used o)
    (ys : List (PathId × Outcome)) (q : Role) (u : Sealing)
    (hu : u ∈ ((w.set r x' ys).engine q).used) :
    ∃ p i m, u.nonce = Nonce.make p (.outbound q) i ∧ u.plaintext = Message.encode m ∧
      (m.key? = none → (grow row r pid added q p)[i.toNat]? = some m) := by
  have before (hu : u ∈ (w.engine q).used) :
      ∃ p i m, u.nonce = Nonce.make p (.outbound q) i ∧ u.plaintext = Message.encode m ∧
        (m.key? = none → (grow row r pid added q p)[i.toNat]? = some m) := by
    obtain ⟨p, i, m, nonce, plain, item⟩ := h.nonces q u hu
    refine ⟨p, i, m, nonce, plain, fun key => ?_⟩
    obtain ⟨more, grown⟩ := grow_append row r q pid p added
    obtain ⟨below, -⟩ := List.getElem?_eq_some_iff.1 (item key)
    rw [grown, List.getElem?_append_left below]
    exact item key
  by_cases hq : q = r
  · subst hq
    rw [engine_set_self, t.used] at hu
    rcases List.mem_append.1 hu with hu | hu
    · obtain ⟨i, m, nonce, plain, item⟩ := writes.nonces u hu
      exact ⟨pid, i, m, nonce, plain, by rw [grow_self]; exact item⟩
    · exact before hu
  · rw [engine_set_of_ne w hq] at hu
    exact before hu

theorem Ledger.taken_set (h : w.Ledger row out got)
    (t : Exchange.Turned (w.engine r) x' pid old new used) {ulps : List Bytes}
    (own : new.stage.Got (row r.peer pid) (got r ++ ulps)) (ys : List (PathId × Outcome)) (q : Role)
    (p : PathId) (strand : Strand) (hs : ((w.set r x' ys).engine q).strand? p = some strand) :
    strand.stage.Got (grow row r pid added q.peer p)
      (Function.update got r (got r ++ ulps) q) := by
  rcases strand?_set t hs with ⟨rfl, rfl, rfl⟩ | ⟨other, hs'⟩
  · rw [grow_of_ne (Role.ne_peer q).symm, Function.update_self]
    exact own
  · by_cases hq : q = r
    · subst hq
      -- another path of the same device, which has not been nominated
      have waits : strand.stage.isNominated = false := by
        by_contra hn
        have named := (h.settled q).named p strand hs' (by simpa using hn)
        rcases nominated_turned t with ⟨hn, -⟩ | ⟨hn, -⟩
        · exact other ⟨rfl, Option.some.inj (named.symm.trans hn)⟩
        · rw [named] at hn; cases hn
      rw [grow_of_ne (Role.ne_peer q).symm]
      have taken := h.taken q p strand hs'
      cases hstage : strand.stage with
      | nominated => rw [hstage] at waits; cases waits
      | awaitingHello | awaitingAuthHello | failed => trivial
      | awaitingAuth | ready => rw [hstage] at taken; exact taken
    · obtain ⟨more, grown⟩ := grow_append row r q.peer pid p added
      rw [Function.update_of_ne hq, grown]
      exact (h.taken q p strand hs').append more

theorem Ledger.given_set (h : w.Ledger row out got)
    (t : Exchange.Turned (w.engine r) x' pid old new used)
    (writes : Exchange.Writes r pid (row r pid) added c old.stage new.stage used o)
    (since : payloads added ≠ [] → (w.engine r).nominated = some pid)
    (ys : List (PathId × Outcome)) (q : Role) :
    Function.update out r (out r ++ Exchange.created c o) q =
      ((w.set r x' ys).engine q).nominated.elim [] fun p =>
        (payloads (grow row r pid added q p)).filter fun data => Lane.Fits (.ulp data) := by
  by_cases hq : q = r
  · subst hq
    rw [Function.update_self, engine_set_self, h.given q, ← writes.created]
    rcases nominated_turned t with ⟨hn, hn'⟩ | ⟨hn, hn'⟩
    · rw [hn, hn']
      simp
    · have none : payloads added = [] := by
        by_contra some
        rw [since some] at hn
        cases hn
      have before : payloads (row q pid) = [] := by
        by_contra some
        rw [h.late q pid some] at hn
        cases hn
      rw [hn, hn']
      split_ifs <;> simp [none, before]
  · rw [Function.update_of_ne hq, engine_set_of_ne w hq, h.given q]
    simp only [grow_of_ne hq]

theorem Ledger.within_set (h : w.Ledger row out got)
    (t : Exchange.Turned (w.engine r) x' pid old new used) {ulp : Option Bytes}
    (own : new.stage.Got (row r.peer pid) (got r ++ ulp.toList))
    (nominated : ∀ data, ulp = some data → new.stage.isNominated = true)
    (ys : List (PathId × Outcome)) (q : Role) :
    Function.update got r (got r ++ ulp.toList) q <+:
      ((w.set r x' ys).engine q).nominated.elim [] fun p =>
        payloads (grow row r pid added q.peer p) := by
  by_cases hq : q = r
  · subst hq
    rw [Function.update_self, engine_set_self]
    simp only [grow_of_ne (Role.ne_peer q).symm]
    by_cases hn : new.stage.isNominated = true
    · rw [t.nominated, if_pos hn]
      obtain ⟨transport, stage⟩ := Stage.isNominated_iff.1 hn
      rw [stage] at own
      rw [← own.2]
      exact (List.take_prefix _ _).filterMap _
    · have quiet : ulp = none := by
        by_contra some
        obtain ⟨data, hd⟩ := Option.ne_none_iff_exists'.1 some
        exact hn (nominated data hd)
      rw [t.nominated, if_neg hn, quiet, Option.toList_none, List.append_nil]
      exact h.within q
  · rw [Function.update_of_ne hq, engine_set_of_ne w hq]
    refine (h.within q).trans ?_
    cases (w.engine q).nominated with
    | none => exact List.prefix_rfl
    | some p =>
      obtain ⟨more, grown⟩ := grow_append row r q.peer pid p added
      simp only [Option.elim_some, grown, payloads_append]
      exact List.prefix_append _ _

theorem Ledger.reads_of_call (h : w.Ledger row out got) (auth : w.Authentic (r, c))
    (hs : (w.engine r).strand? pid = some old) : ∀ now s, c = .processFrame pid now s →
      Exchange.Reads S (w.engine r).device pid old (row r.peer pid) := by
  rintro now s rfl
  exact h.reads auth hs

theorem ledger_turned (h : w.Ledger row out got) (auth : w.Authentic (r, c))
    (started : (w.engine r).started = true)
    (deed : Exchange.Deed S (w.engine r).device pid c old new used o)
    (t : Exchange.Turned (w.engine r) x' pid old new used) :
    ∃ row', (w.set r x' (o.toList.map (pid, ·))).Ledger row'
      (Function.update out r (out r ++ Exchange.created c o))
      (Function.update got r (got r ++ (o.bind (·.ulp)).toList)) := by
  have reads := h.reads_of_call auth t.before
  obtain ⟨added, writes⟩ := deed.writes (h.role r) (h.on r pid old t.before) (h.sent r pid old t.before)
  have own := deed.got reads (h.taken r pid old t.before)
    fun transport ready => (h.none_of_ready t.before (by rw [ready]; rfl) (by rw [ready]; nofun)).2
  have since (some : payloads added ≠ []) : (w.engine r).nominated = .some pid :=
    (h.settled r).named pid old t.before (writes.since some)
  -- only the row of this path grows; every other path keeps its part of the ledger
  refine ⟨grow row r pid added, ?_⟩
  constructor
  case role => exact fun q => (congrArg Device.role (device_set t _ q)).trans (h.role q)
  case settled => exact settled_set h.settled deed t _
  case waiting =>
    intro q hs
    rw [started_set t] at hs
    have hq : q ≠ r := fun hq => by rw [hq, started] at hs; cases hs
    rw [engine_set_of_ne w hq]
    exact ⟨(h.waiting q hs).1, fun p => by rw [grow_of_ne hq]; exact (h.waiting q hs).2 p⟩
  case nonces => exact h.nonces_set t writes _
  case on =>
    intro q p strand hs
    rcases strand?_set t hs with ⟨rfl, rfl, rfl⟩ | ⟨-, hs⟩
    · exact deed.on (h.role q) (h.on q p old t.before)
    · exact h.on q p strand hs
  case sent =>
    intro q p strand hs
    rcases strand?_set t hs with ⟨rfl, rfl, rfl⟩ | ⟨other, hs⟩
    · rw [grow_self]
      exact writes.sent
    · rw [grow_of_not other]
      exact h.sent q p strand hs
  case taken => exact h.taken_set t own _
  case late =>
    intro q p some
    refine nominated_set t _ ?_
    by_cases turn : q = r ∧ p = pid
    · obtain ⟨rfl, rfl⟩ := turn
      rw [grow_self, payloads_append] at some
      by_cases before : payloads (row q p) = []
      · exact since (by simpa [before] using some)
      · exact h.late q p before
    · rw [grow_of_not turn] at some
      exact h.late q p some
  case given => exact h.given_set t writes since _
  case within => exact h.within_set t own (fun data hd => (deed.carries reads hd).2.2.1) _
  case short =>
    intro q data hd
    by_cases hq : q = r
    · subst hq
      rw [Function.update_self] at hd
      rcases List.mem_append.1 hd with hd | hd
      · exact h.short q data hd
      · exact (deed.carries reads (Option.mem_toList.1 hd)).2.2.2
    · rw [Function.update_of_ne hq] at hd
      exact h.short q data hd
  case named => exact named_set h.settled h.named deed t

/-! ### The start -/

theorem ledger_begun (h : w.Ledger row out got) (hs : (w.engine r).started = false)
    (b : Begun S r (w.engine r) x' used) (ys : List (PathId × Outcome)) :
    (w.set r x' ys).Ledger row out got := by
  obtain ⟨waiting, rows⟩ := h.waiting r hs
  have nominated (q : Role) : ((w.set r x' ys).engine q).nominated = (w.engine q).nominated := by
    by_cases hq : q = r
    · subst hq; rw [engine_set_self, b.nominated]
    · rw [engine_set_of_ne w hq]
  -- a path is as it was, or it waits for an answer to its hello
  have strands {q : Role} {p : PathId} {strand : Strand}
      (hs : ((w.set r x' ys).engine q).strand? p = some strand) :
      (w.engine q).strand? p = some strand ∨
        q = r ∧ ∃ secret challenge sentAt,
          strand.stage = .awaitingAuthHello secret challenge sentAt := by
    by_cases hq : q = r
    · subst hq
      rw [engine_set_self] at hs
      rcases b.strands p strand hs with ⟨-, hs⟩ | ⟨secret, challenge, sentAt, hstage, -⟩
      · exact .inl hs
      · exact .inr ⟨rfl, secret, challenge, sentAt, hstage⟩
    · rw [engine_set_of_ne w hq] at hs
      exact .inl hs
  constructor
  case role =>
    intro q
    by_cases hq : q = r
    · subst hq; rw [engine_set_self, b.device]; exact h.role q
    · rw [engine_set_of_ne w hq]; exact h.role q
  case settled =>
    intro q
    refine ⟨fun p strand hs hn => ?_, fun p strand hn hs => ?_⟩
    · rw [nominated]
      rcases strands hs with hs | ⟨-, _, _, _, stage⟩
      · exact (h.settled q).named p strand hs hn
      · rw [stage] at hn; cases hn
    · rw [nominated] at hn
      rcases strands hs with hs | ⟨rfl, _⟩
      · exact (h.settled q).stays p strand hn hs
      · rw [waiting.nominated] at hn; cases hn
  case waiting =>
    intro q hs'
    have hq : q ≠ r := by
      rintro rfl
      rw [engine_set_self, b.started] at hs'
      cases hs'
    rw [engine_set_of_ne w hq] at hs' ⊢
    exact h.waiting q hs'
  case nonces =>
    intro q u hu
    by_cases hq : q = r
    · subst hq
      rw [engine_set_self, b.grew] at hu
      rcases List.mem_append.1 hu with hu | hu
      · obtain ⟨p, challenge, secret, nonce, plain⟩ := b.hello u hu
        exact ⟨p, 0, _, nonce, plain, nofun⟩
      · exact h.nonces q u hu
    · rw [engine_set_of_ne w hq] at hu
      exact h.nonces q u hu
  case on =>
    intro q p strand hs
    rcases strands hs with hs | ⟨-, _, _, _, stage⟩
    · exact h.on q p strand hs
    · rw [stage]; trivial
  case sent =>
    intro q p strand hs
    rcases strands hs with hs | ⟨rfl, _, _, _, stage⟩
    · exact h.sent q p strand hs
    · rw [stage]; exact rows p
  case taken =>
    intro q p strand hs
    rcases strands hs with hs | ⟨-, _, _, _, stage⟩
    · exact h.taken q p strand hs
    · rw [stage]; trivial
  case late => exact fun q p some => (nominated q).trans (h.late q p some)
  case given => exact fun q => by rw [nominated, h.given q]
  case within => exact fun q => by rw [nominated]; exact h.within q
  case short => exact h.short
  case named =>
    intro q p hn
    obtain ⟨hash, reported⟩ := h.named q p (by rw [← nominated]; exact hn)
    exact ⟨hash, reported.mono ..⟩

theorem ledger_start (h : w.Ledger row out got) (r : Role) (now : Nat) (s : Entropy) :
    (w.after (r, .start now s)).Ledger row out got := by
  simp only [after, Exchange.admits, if_true]
  rcases Exchange.start_cases (w.engine r) now s with
    ⟨-, fault, hc⟩ | ⟨hs, -, hc⟩ | ⟨hs, -, frames, strands, used, greets, hc⟩
  · rw [Exchange.yields, hc, set_engine]; exact h
  · rw [Exchange.yields, hc]
    exact ledger_begun h hs begun_initiator _
  · rw [Exchange.yields, hc]
    obtain ⟨waiting, -⟩ := h.waiting r hs
    exact ledger_begun h hs (begun_responder (h.role r) waiting.nominated waiting.paths greets) _

theorem ledger_met {ak : AuthKey} {nominator : Role} {pids : Role → List PathId}
    (met : w.Met ak nominator pids) : w.Ledger (fun _ _ => []) (fun _ => []) fun _ => [] := by
  have waiting (r : Role) := Exchange.waiting_new (met.1 r)
  have fresh {r : Role} {pid : PathId} {strand : Strand}
      (hs : (w.engine r).strand? pid = some strand) : strand.stage = .awaitingHello := by
    rw [(waiting r).fresh pid strand hs]
    rfl
  constructor
  case role => exact fun r => by rw [(Exchange.new_ok (met.1 r)).2]
  case settled => exact fun r => (waiting r).isFresh.settled
  case waiting => exact fun r _ => ⟨waiting r, fun _ => rfl⟩
  case nonces => exact fun r u hu => by rw [(waiting r).used] at hu; cases hu
  case on => exact fun r pid strand hs => by rw [fresh hs]; trivial
  case sent => exact fun r pid strand hs => by rw [fresh hs]; rfl
  case taken => exact fun r pid strand hs => by rw [fresh hs]; trivial
  case late => exact fun r pid some => (some rfl).elim
  case given => exact fun r => by rw [(waiting r).nominated]; rfl
  case within => exact fun r => List.nil_prefix
  case short => exact fun r => nofun
  case named => exact fun r pid hn => by rw [(waiting r).nominated] at hn; cases hn

/-! ### Calls -/

theorem isSome_createFrame (x : Exchange S) (data : Bytes) :
    (x.createFrame data).1.toOption.isSome = true ↔ x.yields (.createFrame data) ≠ [] := by
  simp only [Exchange.yields, Exchange.call, Exchange.createFrame]
  cases hx : x.nominated with
  | none => simp [Except.map, Except.toOption]
  | some p =>
    dsimp only
    cases x.strand? p with
    | none => simp [Except.map, Except.toOption]
    | some strand =>
      obtain ⟨inbox, stage⟩ := strand
      cases stage with
      | nominated transport =>
        dsimp only
        cases (transport.tx.send S (.ulp data)).frame with
        | error fault => simp [Except.map, Except.toOption]
        | ok frame => simp [Except.map, Except.toOption, Exchange.put, Exchange.record, hx]
      | _ => simp [Except.map, Except.toOption]

theorem returned_self (w : Pair S) (r : Role) (pid : PathId) (now : Nat) (s : Entropy) :
    returned r w (r, .processFrame pid now s) =
      ((w.engine r).yields (.processFrame pid now s)).filterMap (·.2.ulp) := by
  simp only [returned, if_true, Exchange.yields, Exchange.call]
  rcases ((w.engine r).processFrame pid now s).1 with fault | _ | o
  · rfl
  · rfl
  · cases ho : o.ulp <;> simp [Except.map, ho]

theorem made_of_ne {q : Role} (hq : q ≠ r) : made q w (r, c) = [] := by
  cases c with
  | createFrame data => simp [made, Ne.symm hq]
  | _ => rfl

theorem returned_of_ne {q : Role} (hq : q ≠ r) : returned q w (r, c) = [] := by
  cases c with
  | processFrame pid now s => simp [returned, Ne.symm hq]
  | _ => rfl

theorem made_of_yields (hy : (w.engine r).yields c = o.toList.map (pid, ·)) :
    made r w (r, c) = Exchange.created c o := by
  cases c with
  | createFrame data =>
    simp only [made, true_and, isSome_createFrame, hy]
    cases o <;> simp [Exchange.created]
  | _ => rfl

theorem returned_of_yields (hy : (w.engine r).yields c = o.toList.map (pid, ·))
    (frames : ∀ data, o.bind (·.ulp) = some data → ∃ p now s, c = .processFrame p now s) :
    returned r w (r, c) = (o.bind (·.ulp)).toList := by
  cases c with
  | processFrame p now s =>
    rw [returned_self, hy]
    cases o with
    | none => rfl
    | some o => cases ho : o.ulp <;> simp [ho]
  | _ =>
    cases ho : o.bind (·.ulp) with
    | none => rfl
    | some data =>
      obtain ⟨p, now, s, same⟩ := frames data ho
      cases same

theorem nothing_of_waiting {x : Exchange S} (h : x.Waiting) :
    (∀ data, (x.createFrame data).1.toOption.isSome = false) ∧
      ∀ pid now s o, (x.processFrame pid now s).1 ≠ .ok (some o) := by
  refine ⟨fun data => by simp [Exchange.createFrame, h.nominated, Except.toOption], ?_⟩
  intro pid now s o
  unfold Exchange.processFrame
  cases hs : x.strand? pid with
  | none => simp
  | some strand =>
    have empty : strand.inbox.buffer ++ [] = [] := by
      rw [h.fresh pid strand hs]
      rfl
    simp [Reassembly.next_of_nil empty]

theorem Ledger.unchanged {v : Pair S} (h : v.Ledger row out got) (made : made r w (r, c) = [])
    (returned : returned r w (r, c) = []) :
    v.Ledger row (fun q => out q ++ Pair.made q w (r, c)) fun q => got q ++ Pair.returned q w (r, c) := by
  convert h using 1 <;> funext q <;> by_cases hq : q = r
  · subst hq; rw [made, List.append_nil]
  · rw [made_of_ne hq, List.append_nil]
  · subst hq; rw [returned, List.append_nil]
  · rw [returned_of_ne hq, List.append_nil]

theorem ledger_turn (h : w.Ledger row out got) (auth : w.Authentic (r, c))
    (started : (w.engine r).started = true)
    (t : (w.engine r).Turn c ((w.engine r).yields c) ((w.engine r).call c).2) :
    ∃ row', (w.set r ((w.engine r).call c).2 ((w.engine r).yields c)).Ledger row'
      (fun q => out q ++ made q w (r, c)) fun q => got q ++ returned q w (r, c) := by
  generalize hy : (w.engine r).yields c = ys at t ⊢
  generalize ((w.engine r).call c).2 = x' at t ⊢
  cases t with
  | still =>
    rw [set_engine]
    have nothing : (w.engine r).yields c = (none : Option Outcome).toList.map ((0 : PathId), ·) := hy
    have made : made r w (r, c) = [] := (made_of_yields nothing).trans (by cases c <;> rfl)
    exact ⟨row, h.unchanged made (returned_of_yields nothing nofun)⟩
  | @turned pid old new used o _ deed t =>
    obtain ⟨row', ledger⟩ := ledger_turned h auth started deed t
    have reads := h.reads_of_call auth t.before
    have frames (data : Bytes) (ho : o.bind (·.ulp) = some data) :
        ∃ p now s, c = .processFrame p now s := ⟨pid, (deed.carries reads ho).1⟩
    refine ⟨row', ?_⟩
    convert ledger using 1 <;> funext q <;> by_cases hq : q = r
    · subst hq; rw [Function.update_self, made_of_yields hy]
    · rw [Function.update_of_ne hq, made_of_ne hq, List.append_nil]
    · subst hq; rw [Function.update_self, returned_of_yields hy frames]
    · rw [Function.update_of_ne hq, returned_of_ne hq, List.append_nil]

theorem ledger_after (h : w.Ledger row out got) (m : Role × Call) (auth : w.Authentic m) :
    ∃ row', (w.after m).Ledger row' (fun q => out q ++ made q w m) fun q => got q ++ returned q w m := by
  obtain ⟨r, c⟩ := m
  cases c with
  | start now s => exact ⟨row, (ledger_start h r now s).unchanged rfl rfl⟩
  | addChunk pid chunk =>
    simp only [after]
    split_ifs with hs
    · exact ledger_turn h auth hs ((h.settled r).turn_addChunk pid chunk)
    · exact ⟨row, h.unchanged rfl rfl⟩
  | processFrame pid now s =>
    simp only [after]
    split_ifs with hs
    · exact ledger_turn h auth hs (Exchange.turn_processFrame _ pid now s)
    · obtain ⟨waiting, -⟩ := h.waiting r (by simpa [Exchange.admits] using hs)
      have none := (nothing_of_waiting waiting).2 pid now s
      refine ⟨row, h.unchanged rfl ?_⟩
      simp only [returned, if_true]
  | nominate pid =>
    simp only [after]
    split_ifs with hs
    · exact ledger_turn h auth hs (Exchange.turn_nominate _ pid)
    · exact ⟨row, h.unchanged rfl rfl⟩
  | createFrame data =>
    simp only [after]
    split_ifs with hs
    · exact ledger_turn h auth hs (Exchange.turn_createFrame _ data)
    · obtain ⟨waiting, -⟩ := h.waiting r (by simpa [Exchange.admits] using hs)
      have none := (nothing_of_waiting waiting).1 data
      exact ⟨row, h.unchanged (by simp [made, none]) rfl⟩

theorem ledger_run (h : w.Ledger row out got) (ms : List (Role × Call)) (genuine : Genuine ms w) :
    ∃ row', (w.run ms).Ledger row' (fun q => out q ++ history (made q) ms w)
      fun q => got q ++ history (returned q) ms w := by
  induction ms generalizing w row out got with
  | nil =>
    simp only [history, List.append_nil]
    exact ⟨row, h⟩
  | cons m ms ih =>
    obtain ⟨row', after⟩ := ledger_after h m genuine.1
    obtain ⟨row'', run⟩ := ih after genuine.2
    simp only [history, ← List.append_assoc]
    exact ⟨row'', run⟩

end

/-! ### A path that has failed -/

theorem failed_after {r : Role} {pid : PathId} (h : (w.engine r).Failed pid) (m : Role × Call) :
    ((w.after m).engine r).Failed pid := by
  obtain ⟨q, c⟩ := m
  simp only [after]
  split_ifs
  · by_cases hq : r = q
    · subst hq
      rw [engine_set_self]
      exact (h.call c).1
    · rw [engine_set_of_ne w hq]
      exact h
  · exact h

theorem failed_run {r : Role} {pid : PathId} (h : (w.engine r).Failed pid) (ms : List (Role × Call)) :
    ((w.run ms).engine r).Failed pid := by
  induction ms generalizing w with
  | nil => exact h
  | cons m ms ih => exact ih (failed_after h m)

/-! ### Integrity -/

theorem Ledger.nominated_of_returned (h : w.Ledger row out got) {r : Role} {m : Role × Call}
    (auth : w.Authentic m) {data : Bytes} (hd : data ∈ returned r w m) :
    ∃ pid now s, m = (r, .processFrame pid now s) ∧ (w.engine r).nominated = some pid := by
  obtain ⟨q, c⟩ := m
  obtain rfl : r = q := by
    by_contra hq
    rw [returned_of_ne hq] at hd
    cases hd
  cases c with
  | processFrame pid now s =>
    have t := Exchange.turn_processFrame (w.engine r) pid now s
    rw [returned_self] at hd
    generalize (w.engine r).yields (.processFrame pid now s) = ys at hd t
    generalize ((w.engine r).call (.processFrame pid now s)).2 = x' at t
    cases t with
    | still => cases hd
    | @turned q old new used o _ deed t =>
      have reads := h.reads_of_call auth t.before
      obtain ⟨⟨p, o'⟩, hm, ho⟩ := List.mem_filterMap.1 hd
      obtain ⟨o'', hm, he⟩ := List.mem_map.1 hm
      obtain rfl := Option.mem_toList.1 hm
      obtain ⟨rfl, rfl⟩ := Prod.mk.inj he
      obtain ⟨⟨now', s', same⟩, nominated, -⟩ := deed.carries reads ho
      exact ⟨q, now', s', by rw [same], (h.settled r).named q old t.before nominated⟩
  | _ => cases hd

/-- Against any network, the payloads that a device returns are, in order, a prefix of those its peer
has made into frames. It returns none before it has reported a nomination itself, and a path that has
refused a frame returns nothing more. -/
theorem payload_integrity {ak : AuthKey} {nominator : Role} {pids : Role → List PathId}
    (met : w.Met ak nominator pids) (ms : List (Role × Call)) (genuine : Genuine ms w) (r : Role) :
    history (returned r) ms w <+: history (made r.peer) ms w ∧
    ∀ before m after, ms = before ++ m :: after → let v := w.run before
      (∀ data ∈ returned r v m, ∃ pid now s hash, m = (r, .processFrame pid now s) ∧
        (v.engine r).nominated = some pid ∧ v.Reported r pid hash) ∧
      ∀ pid now s fault, m = (r, .processFrame pid now s) → (v.engine r).decodes pid = true →
        ((v.engine r).processFrame pid now s).1 = .error fault →
        ∀ later c o, (pid, o) ∉ (((v.after m).run later).engine r).yields c := by
  constructor
  · obtain ⟨row, ledger⟩ := ledger_run (ledger_met met) ms genuine
    simpa using ledger.leads r
  · rintro before m after rfl v
    obtain ⟨genuine, auth, -⟩ := genuine_append genuine
    obtain ⟨row, ledger⟩ := ledger_run (ledger_met met) before genuine
    refine ⟨fun data hd => ?_, fun pid now s fault hm decodes refused later c o => ?_⟩
    · obtain ⟨pid, now, s, same, hn⟩ := ledger.nominated_of_returned auth hd
      obtain ⟨hash, reported⟩ := ledger.named r pid hn
      exact ⟨pid, now, s, hash, same, hn, reported⟩
    · subst hm
      have started : (v.engine r).started = true := by
        by_contra hs
        obtain ⟨waiting, -⟩ := ledger.waiting r (by simpa using hs)
        obtain ⟨strand, ciphertext, inbox, hs, next⟩ := Exchange.exists_of_decodes decodes
        have empty : strand.inbox.buffer ++ [] = [] := by
          rw [waiting.fresh pid strand hs]
          rfl
        rw [Reassembly.next_of_nil empty] at next
        cases next
      have failed := Exchange.failed_of_refused started (ledger.settled r) decodes refused
      refine ((failed_run ?_ later).call c).2 o
      simpa only [Pair.after, Exchange.admits, started, if_true, engine_set_self] using failed

/-- The meeting up to the nomination, and two payloads; the network delivers the first, and then
delivers it again. -/
def plainReplay : List (Role × Call) :=
  let take : Role × Call := (.responder, .processFrame 7 0 (.cycle [0]))
  let lane := (Lane.start plainKeys.initiator 7 (.outbound .initiator)).advance
  let first := lane.framed Suite.plain (.ulp [1, 2])
  plainMeeting.take 11 ++ [(.initiator, .createFrame [1, 2]), (.initiator, .createFrame [3]),
    (.responder, .addChunk 7 first), take, (.responder, .addChunk 7 first), take]

theorem payload_integrity_plain :
    let before := plainReplay.take 16
    let v := plainPair.run before
    let m : Role × Call := (.responder, .processFrame 7 0 (.cycle [0]))
    plainPair.Met (Octets.zero 32) .initiator (fun _ => [7]) ∧ Genuine plainReplay plainPair ∧
    history (returned .responder) plainReplay plainPair = [[1, 2]] ∧
    history (made .initiator) plainReplay plainPair = [[1, 2], [3]] ∧
    history (returned .responder) plainReplay plainPair <+:
      history (made .initiator) plainReplay plainPair ∧
    plainReplay = before ++ [m] ∧ (v.engine .responder).decodes 7 = true ∧
    ∀ later c o, (7, o) ∉ (((v.after m).run later).engine .responder).yields c := by
  intro before v m
  have genuine : Genuine plainReplay plainPair := by decide +kernel
  obtain ⟨leads, each⟩ := payload_integrity met_plainPair plainReplay genuine .responder
  have split : plainReplay = before ++ [m] := rfl
  refine ⟨met_plainPair, genuine, ?_, ?_, leads, split, ?_, ?_⟩
  · decide +kernel
  · decide +kernel
  · decide +kernel
  · refine (each before m [] split).2 7 0 (.cycle [0]) (.crypto .decryptionFailed) rfl ?_ ?_
    · decide +kernel
    · decide +kernel

end Pair

end PathRace
