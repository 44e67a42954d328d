import PathRace.Proofs.Pair.Joint
import PathRace.Proofs.Pair.Relay
import PathRace.Proofs.Wire.Frame

/-! The invariant of honest runs (`Fair`): the two ends of each path that has been greeted are `Joint`,
so an end never refuses a frame that is delivered to it. -/

namespace PathRace

namespace Relay

variable {S : Suite} {ak : AuthKey} {nominator : Role} {pids : List PathId} {v : Relay S}

/-- The bytes that each end of a path has still to process: those that have arrived and those in flight. -/
def pending (v : Relay S) (pid : PathId) (strand : Role → Strand) (r : Role) : Bytes :=
  (strand r).inbox.buffer ++ v.flight r.peer pid

/-- The state of one path: no hello has been sent on it, or its ends are `Joint`. -/
def Point (ak : AuthKey) (nominator : Role) (v : Relay S) (pid : PathId) (strand : Role → Strand) :
    Prop :=
  ((v.pair.engine .responder).started = false ∧
    ∀ r, (strand r).stage = .awaitingHello ∧ v.pending pid strand r = []) ∨
  ((v.pair.engine .responder).started = true ∧
    Pair.Joint S ak nominator pid (fun r => (strand r).stage) (v.pending pid strand))

/-- The two ends of a path; an end whose device has dropped the path is as it was last. -/
structure Link (ak : AuthKey) (nominator : Role) (v : Relay S) (pid : PathId)
    (strand : Role → Strand) : Prop where
  shown : ∀ r s, (v.pair.engine r).strand? pid = some s → s = strand r
  named : ∀ r, (strand r).stage.isNominated = true → (v.pair.engine r).nominated = some pid
  point : v.Point ak nominator pid strand

/-- The invariant of all legal moves. -/
structure Fair (ak : AuthKey) (nominator : Role) (pids : List PathId) (v : Relay S) : Prop where
  device : ∀ r, (v.pair.engine r).device = ⟨r, r == nominator, ak⟩
  settled : ∀ r, (v.pair.engine r).Settled
  reach : ∀ r, ∀ pid ∈ pids, (v.pair.engine r).nominated = none ∨
    (v.pair.engine r).nominated = some pid → ∃ s, (v.pair.engine r).strand? pid = some s
  unstarted : ∀ r, (v.pair.engine r).started = false →
    (v.pair.engine r).nominated = none ∧ (v.pair.engine r).pids.Nodup
  chosen : ∀ r pid, (v.pair.engine r).nominated = some pid → pid ∈ pids
  linked : ∀ pid ∈ pids, ∃ strand, v.Link ak nominator pid strand
  readied : ∀ r pid, v.Readied r pid →
    pid ∈ pids ∧ (v.pair.engine r).started = true ∧ ((v.pair.engine r).nominated = none →
      ∃ inbox t, (v.pair.engine r).strand? pid = some ⟨inbox, .ready t⟩)
  reported : ∀ r pid s t, (v.pair.engine r).strand? pid = some s → s.stage = .nominated t →
    v.pair.Reported r pid t.hash

/-! ### Turns -/

section

variable {r : Role} {p : PathId} {c : Call} {old new : Strand} {used : List Sealing}
  {o : Option Outcome} {x' : Exchange S}

theorem ready_of_report {d : Device} (deed : Exchange.Deed S d p c old new used o) {o' : Outcome}
    {rtt : Nat} (ho : o = some o') (hu : o'.update = some (.ready rtt)) :
    ∃ inbox t, new = ⟨inbox, .ready t⟩ := by
  subst ho
  cases deed with
  | nominated => simp [Outcome.adding] at hu
  | sent frame =>
    obtain ⟨frame, -, rfl⟩ := Option.map_eq_some_iff.1 frame.symm
    simp [Outcome.frame, Outcome.none] at hu
  | took next advance =>
    cases advance with
    | answered | nominated | carried =>
      simp [Outcome.frame, Outcome.news, Outcome.data, Outcome.none] at hu
    | proven | confirmed => exact ⟨_, _, rfl⟩

theorem ready_or_nominated {d : Device} (deed : Exchange.Deed S d p c old new used o)
    {t : Transport} (ho : old.stage = .ready t) (works : new.stage ≠ .failed) :
    new.stage.isNominated = true ∨ ∃ inbox t', new = ⟨inbox, .ready t'⟩ := by
  cases deed with
  | fed => subst ho; exact .inr ⟨_, _, rfl⟩
  | refused | exhausted => exact (works rfl).elim
  | nominated | sent => exact .inl rfl
  | took next advance =>
    cases advance with
    | answered | proven | confirmed | carried => cases ho
    | nominated => exact .inl rfl

theorem Link.elsewhere {pid : PathId} {strand : Role → Strand} (h : v.Link ak nominator pid strand)
    (t : Exchange.Turned (v.pair.engine r) x' p old new used) (ys : List (PathId × Outcome))
    {flight' : Role → PathId → Bytes} (hp : pid ≠ p)
    (same : ∀ q, flight' q pid = v.flight q pid) :
    Link ak nominator ⟨v.pair.set r x' ys, flight'⟩ pid strand where
  shown q s hs := by
    by_cases hq : q = r
    · subst hq
      rw [Pair.engine_set_self, t.others pid hp] at hs
      split_ifs at hs
      exact h.shown q s hs
    · rw [Pair.engine_set_of_ne _ hq] at hs
      exact h.shown q s hs
  named q hn := by
    by_cases hq : q = r
    · subst hq
      -- a path that has been nominated leaves no turn to another
      rcases Exchange.nominated_of_strand? t.before with hx | hx
      · rw [h.named q hn] at hx; cases hx
      · rw [h.named q hn] at hx; exact (hp (Option.some.inj hx)).elim
    · rw [Pair.engine_set_of_ne _ hq]; exact h.named q hn
  point := by
    have hpend : pending ⟨v.pair.set r x' ys, flight'⟩ pid strand = v.pending pid strand := by
      funext q; simp only [pending, same]
    simpa only [Point, Pair.started_set t, hpend] using h.point

theorem Link.turned {strand : Role → Strand} (h : v.Link ak nominator p strand)
    (t : Exchange.Turned (v.pair.engine r) x' p old new used) (ys : List (PathId × Outcome))
    {flight' : Role → PathId → Bytes}
    (next : Point ak nominator ⟨v.pair.set r x' ys, flight'⟩ p (Function.update strand r new)) :
    Link ak nominator ⟨v.pair.set r x' ys, flight'⟩ p (Function.update strand r new) where
  shown q s hs := by
    by_cases hq : q = r
    · subst hq
      rw [Pair.engine_set_self] at hs
      rw [Function.update_self]
      exact Option.some.inj (hs.symm.trans t.after)
    · rw [Pair.engine_set_of_ne _ hq] at hs
      rw [Function.update_of_ne hq]
      exact h.shown q s hs
  named q hn := by
    by_cases hq : q = r
    · subst hq
      rw [Function.update_self] at hn
      rw [Pair.engine_set_self, t.nominated, if_pos hn]
    · rw [Function.update_of_ne hq] at hn
      rw [Pair.engine_set_of_ne _ hq]
      exact h.named q hn
  point := next

theorem point_of_joint {strand : Role → Strand} {rest out : Bytes}
    (greeted : (v.pair.engine .responder).started = true)
    (t : Exchange.Turned (v.pair.engine r) x' p old new used) (ys : List (PathId × Outcome))
    {flight' : Role → PathId → Bytes}
    (joint : Pair.Joint S ak nominator p (Function.update (fun q => (strand q).stage) r new.stage)
      (Pair.passed (v.pending p strand) r rest out))
    (mine : new.inbox.buffer ++ flight' r.peer p = rest)
    (theirs : flight' r p = v.flight r p ++ out) :
    Point ak nominator ⟨v.pair.set r x' ys, flight'⟩ p (Function.update strand r new) := by
  have stages : (fun q => (Function.update strand r new q).stage) =
      Function.update (fun q => (strand q).stage) r new.stage :=
    funext fun q => Function.apply_update (fun _ => Strand.stage) strand r new q
  have pends : pending ⟨v.pair.set r x' ys, flight'⟩ p (Function.update strand r new) =
      Pair.passed (v.pending p strand) r rest out := by
    funext q
    rcases Role.eq_or_eq_peer q r with rfl | rfl
    · rw [Pair.passed_self, pending, Function.update_self, mine]
    · have hr : r.peer ≠ r := (Role.ne_peer r).symm
      rw [Pair.passed_peer, pending, Function.update_of_ne hr, pending, Role.peer_peer]
      simp only [theirs, List.append_assoc]
  exact .inr ⟨(Pair.started_set t ys _).trans greeted, by rw [stages, pends]; exact joint⟩

theorem Fair.reach_set (h : v.Fair ak nominator pids)
    (t : Exchange.Turned (v.pair.engine r) x' p old new used) (ys : List (PathId × Outcome)) (q : Role)
    (pid : PathId) (hpid : pid ∈ pids) (hn : ((v.pair.set r x' ys).engine q).nominated = none ∨
      ((v.pair.set r x' ys).engine q).nominated = some pid) :
    ∃ s, ((v.pair.set r x' ys).engine q).strand? pid = some s := by
  by_cases hq : q = r
  · subst hq
    rw [Pair.engine_set_self] at hn ⊢
    by_cases hpp : pid = p
    · subst hpp; exact ⟨new, t.after⟩
    · rw [t.nominated] at hn
      rw [t.others pid hpp]
      split_ifs at hn ⊢
      · rcases hn with hn | hn
        · cases hn
        · exact (hpp (Option.some.inj hn).symm).elim
      · exact h.reach q pid hpid hn
  · rw [Pair.engine_set_of_ne _ hq] at hn ⊢
    exact h.reach q pid hpid hn

theorem Fair.readied_set (h : v.Fair ak nominator pids)
    (deed : Exchange.Deed S (v.pair.engine r).device p c old new used o)
    (t : Exchange.Turned (v.pair.engine r) x' p old new used)
    (started : (v.pair.engine r).started = true) (hp : p ∈ pids) (works : new.stage ≠ .failed)
    (flight' : Role → PathId → Bytes) (q : Role) (pid : PathId)
    (hr : Readied ⟨v.pair.set r x' (o.toList.map (p, ·)), flight'⟩ q pid) :
    pid ∈ pids ∧ ((v.pair.set r x' (o.toList.map (p, ·))).engine q).started = true ∧
      (((v.pair.set r x' (o.toList.map (p, ·))).engine q).nominated = none → ∃ inbox t',
        ((v.pair.set r x' (o.toList.map (p, ·))).engine q).strand? pid =
          some ⟨inbox, .ready t'⟩) := by
  rw [Pair.started_set t]
  obtain ⟨o', rtt, hm, hu⟩ := hr
  rcases Pair.mem_log_set.1 hm with ⟨rfl, rfl, ho⟩ | hm
  · obtain ⟨inbox, t', rfl⟩ := ready_of_report deed ho hu
    exact ⟨hp, started, fun _ => ⟨inbox, t', by rw [Pair.engine_set_self]; exact t.after⟩⟩
  · obtain ⟨hpid, begun, hready⟩ := h.readied q pid ⟨o', rtt, hm, hu⟩
    refine ⟨hpid, begun, fun hn => ?_⟩
    by_cases hq : q = r
    · subst hq
      rw [Pair.engine_set_self] at hn ⊢
      rw [t.nominated] at hn
      split_ifs at hn with hi
      obtain ⟨inbox, t', hs⟩ := hready hn
      by_cases hpp : pid = p
      · subst hpp
        obtain rfl : old = ⟨inbox, .ready t'⟩ := Option.some.inj (t.before.symm.trans hs)
        rcases ready_or_nominated deed rfl works with hi' | ⟨inbox', t'', rfl⟩
        · exact (hi hi').elim
        · exact ⟨inbox', t'', t.after⟩
      · exact ⟨inbox, t', by rw [t.others pid hpp, if_neg hi]; exact hs⟩
    · rw [Pair.engine_set_of_ne _ hq] at hn ⊢
      exact hready hn

theorem Fair.reported_set (h : v.Fair ak nominator pids)
    (deed : Exchange.Deed S (v.pair.engine r).device p c old new used o)
    (t : Exchange.Turned (v.pair.engine r) x' p old new used) (q : Role) (pid : PathId) (s : Strand)
    (t' : Transport)
    (hs : ((v.pair.set r x' (o.toList.map (p, ·))).engine q).strand? pid = some s)
    (hstage : s.stage = .nominated t') :
    (v.pair.set r x' (o.toList.map (p, ·))).Reported q pid t'.hash := by
  by_cases hq : q = r
  · subst hq
    rw [Pair.engine_set_self] at hs
    by_cases hpp : pid = p
    · subst hpp
      obtain rfl : new = s := Option.some.inj (t.after.symm.trans hs)
      rcases deed.reports hstage with ⟨t'', hold, hash⟩ | ⟨o', ho, hu⟩
      · exact hash ▸ (h.reported q pid old t'' t.before hold).mono ..
      · exact ⟨o', Pair.mem_log_set.2 (.inl ⟨rfl, rfl, ho⟩), hu⟩
    · rw [t.others pid hpp] at hs
      split_ifs at hs
      exact (h.reported q pid s t' hs hstage).mono ..
  · rw [Pair.engine_set_of_ne _ hq] at hs
    exact (h.reported q pid s t' hs hstage).mono ..

theorem Fair.turned (h : v.Fair ak nominator pids)
    (deed : Exchange.Deed S (v.pair.engine r).device p c old new used o)
    (t : Exchange.Turned (v.pair.engine r) x' p old new used)
    (started : (v.pair.engine r).started = true) (hp : p ∈ pids) (works : new.stage ≠ .failed)
    {strand : Role → Strand} (hl : v.Link ak nominator p strand) {flight' : Role → PathId → Bytes}
    (elsewhere : ∀ q pid, pid ≠ p → flight' q pid = v.flight q pid)
    (next : Point ak nominator ⟨v.pair.set r x' (o.toList.map (p, ·)), flight'⟩ p
      (Function.update strand r new)) :
    Fair ak nominator pids ⟨v.pair.set r x' (o.toList.map (p, ·)), flight'⟩ where
  device q := (Pair.device_set t _ q).trans (h.device q)
  settled := Pair.settled_set h.settled deed t _
  reach := h.reach_set t _
  unstarted q hs := by
    rw [Pair.started_set t] at hs
    have hq : q ≠ r := fun hq => by rw [hq, started] at hs; cases hs
    rw [Pair.engine_set_of_ne _ hq]
    exact h.unstarted q hs
  chosen q pid hn := by
    by_cases hq : q = r
    · subst hq
      rw [Pair.engine_set_self, t.nominated] at hn
      split_ifs at hn
      · exact Option.some.inj hn ▸ hp
      · exact h.chosen q pid hn
    · rw [Pair.engine_set_of_ne _ hq] at hn; exact h.chosen q pid hn
  linked pid hpid := by
    by_cases hpp : pid = p
    · subst hpp; exact ⟨_, hl.turned t _ next⟩
    · obtain ⟨strand', hl'⟩ := h.linked pid hpid
      exact ⟨strand', hl'.elsewhere t _ hpp fun q => elsewhere q pid hpp⟩
  readied := h.readied_set deed t started hp works flight'
  reported := h.reported_set deed t

end

/-! ### Deliveries -/

theorem Point.congr {v' : Relay S} {pid : PathId} {strand strand' : Role → Strand}
    (h : v.Point ak nominator pid strand)
    (started : (v'.pair.engine .responder).started = (v.pair.engine .responder).started)
    (stages : ∀ q, (strand' q).stage = (strand q).stage)
    (same : ∀ q, v'.pending pid strand' q = v.pending pid strand q) :
    v'.Point ak nominator pid strand' := by
  have hs : (fun q => (strand' q).stage) = fun q => (strand q).stage := funext stages
  have hp : v'.pending pid strand' = v.pending pid strand := funext same
  simpa only [Point, started, stages, hs, hp] using h

theorem Point.works {pid : PathId} {strand : Role → Strand} (h : v.Point ak nominator pid strand)
    (r : Role) : (strand r).stage ≠ .failed := by
  rcases h with ⟨-, h⟩ | ⟨-, h⟩
  · simp [(h r).1]
  · exact h.works r

/-- The move succeeds and keeps the invariant. -/
def Goes (ak : AuthKey) (nominator : Role) (pids : List PathId) (v : Relay S) (m : Move) : Prop :=
  (∃ ys, v.answer m = .ok ys) ∧ (v.after m).Fair ak nominator pids

theorem goes_of_still (h : v.Fair ak nominator pids) {m : Move}
    (ha : (v.pair.engine m.role).admits (v.call m) = true)
    (hc : (v.pair.engine m.role).call (v.call m) = (.ok [], v.pair.engine m.role))
    (hl : ∀ q p, v.left m q p = v.flight q p) : v.Goes ak nominator pids m := by
  refine ⟨⟨[], congrArg Prod.fst hc⟩, ?_⟩
  have same : v.after m = v := by
    rw [after_of_ok ha hc, Pair.set_engine]
    simp [hl]
  rwa [same]

theorem goes_deliver (h : v.Fair ak nominator pids) {r : Role} {p : PathId} {n : Nat}
    (legal : v.Legal nominator pids (.deliver r p n)) :
    v.Goes ak nominator pids (.deliver r p n) := by
  obtain ⟨started, hp, hn⟩ := legal
  obtain ⟨old, hs⟩ := h.reach r p hp hn
  obtain ⟨strand, hl⟩ := h.linked p hp
  have same := hl.shown r old hs
  let new : Strand := ⟨old.inbox.push ((v.flight r.peer p).take n), old.stage⟩
  have hc : (v.pair.engine r).call (v.call (.deliver r p n)) =
      (.ok [], (v.pair.engine r).put p new) := by
    simp [Exchange.call, call, Exchange.addChunk, hs, Except.map, new]
  have t : Exchange.Turned (v.pair.engine r) (((v.pair.engine r).record []).put p new) p old new [] :=
    Exchange.turned_put hs ((h.settled r).named p old hs)
  refine ⟨⟨[], congrArg Prod.fst hc⟩, ?_⟩
  rw [after_of_ok (m := .deliver r p n) started hc]
  refine h.turned (o := none) .fed t started hp ?_ hl (fun q pid hpp => by simp [left, hpp]) ?_
  · exact same ▸ hl.point.works r
  · refine hl.point.congr (Pair.started_set t [] _) (fun q => ?_) fun q => ?_
    · by_cases hq : q = r
      · subst hq; simp [same]
      · rw [Function.update_of_ne hq]
    · by_cases hq : q = r
      · subst hq; simp [pending, left, Reassembly.push, same]
      · have hq' : q.peer ≠ r.peer := fun e => hq (by simpa using congrArg Role.peer e)
        simp [pending, left, hq, hq']

/-! ### Frames -/

theorem goes_process (agrees : S.Agrees) (h : v.Fair ak nominator pids) {r : Role} {p : PathId}
    {now : Nat} {s : Entropy} (legal : v.Legal nominator pids (.process r p now s)) :
    v.Goes ak nominator pids (.process r p now s) := by
  obtain ⟨started, hp, hn⟩ := legal
  obtain ⟨⟨inbox, stage⟩, hs⟩ := h.reach r p hp hn
  obtain ⟨strand, hl⟩ := h.linked p hp
  have same := hl.shown r _ hs
  have still (hnext : inbox.next = (.ok none, inbox)) : v.Goes ak nominator pids (.process r p now s) :=
    goes_of_still h started
      (by simp [Exchange.call, call, Move.role, Exchange.processFrame, hs, hnext, Except.map])
      fun _ _ => rfl
  have hpend : v.pending p strand r = inbox.buffer ++ v.flight r.peer p := by simp [pending, ← same]
  rcases hl.point with ⟨-, quiet⟩ | ⟨greeted, joint⟩
  · exact still (Reassembly.next_of_nil (hpend.symm.trans (quiet r).2))
  rcases joint.take agrees r with quiet | ⟨l, m, rest, hframe, fits, takes⟩
  · exact still (Reassembly.next_of_nil (hpend.symm.trans quiet))
  -- a frame is on its way
  let body := S.encrypt l.key l.nonce m.encode
  have hbody : body.length = m.encode.length + Limit.tagSize := S.length_encrypt ..
  have hbuf : inbox.buffer ++ v.flight r.peer p = Frame.announce body.length ++ (body ++ rest) := by
    rw [← hpend, hframe, Lane.framed, hbody, List.append_assoc]
  rcases Reassembly.next_of_append (hbody.trans_le fits) hbuf with hnext | ⟨inbox', hnext, hrest⟩
  · exact still hnext
  obtain ⟨stage', o, hstep, next⟩ := takes now s
  simp only [← h.device r, ← same] at hstep
  have hc := Exchange.call_of_taken hs hnext hstep
  have taken : Device.Taken S _ p now body stage ((v.pair.engine r).device.step S p now stage body s) :=
    Device.step_cases stage
  rcases taken with ⟨stage'', o', hr, advance⟩ | ⟨⟨fault, hr⟩, -⟩
  · obtain ⟨rfl, rfl⟩ : stage'' = stage' ∧ o' = o := by simpa using hr.symm.trans hstep
    have deed : Exchange.Deed S _ p (.processFrame p now s) _ _ _ _ := .took hnext advance
    have t := @Exchange.turned_took _ _ _ _ ⟨inbox', stage''⟩ hs
      ((v.pair.engine r).device.step S p now stage body s).used
    have quiet : v.left (.process r p now s) = v.flight := rfl
    refine ⟨⟨_, congrArg Prod.fst hc⟩, ?_⟩
    rw [after_of_ok (m := .process r p now s) started hc]
    refine h.turned deed t started hp ?_ hl (fun q pid hpp => ?_) (point_of_joint greeted t _ next ?_ ?_)
    · simpa using next.works r
    · simp [quiet, sent_one, hpp.symm]
    · simpa [quiet, Move.role, (Role.ne_peer r).symm] using hrest
    · simp [quiet, Move.role, sent_one]
  · cases hr.symm.trans hstep

/-! ### The nomination -/

theorem goes_nominate (h : v.Fair ak nominator pids) {r : Role} {p : PathId}
    (legal : v.Legal nominator pids (.nominate r p)) : v.Goes ak nominator pids (.nominate r p) := by
  obtain ⟨rfl, hn, readied⟩ := legal
  obtain ⟨hp, started, hready⟩ := h.readied r p readied
  obtain ⟨inbox, transport, hs⟩ := hready hn
  obtain ⟨strand, hl⟩ := h.linked p hp
  have same := hl.shown r _ hs
  have hstage : (strand r).stage = .ready transport := by rw [← same]
  rcases hl.point with ⟨-, waiting⟩ | ⟨greeted, joint⟩
  · have := (waiting r).1
    rw [hstage] at this
    cases this
  obtain ⟨fresh, next⟩ := joint.nominate hstage
  have nominator : (v.pair.engine r).device.isNominator = true := by simp [h.device]
  have hc := Exchange.call_of_nominate nominator hn hs fresh
  let new : Strand := ⟨inbox, .nominated { transport with tx := transport.tx.advance }⟩
  have deed : Exchange.Deed S _ p (.nominate p) _ new _ _ := .nominated nominator fresh
  have t := @Exchange.turned_settle _ _ _ _ new [transport.tx.sealing Message.nominate.encode] hs rfl
  have quiet : v.left (.nominate r p) = v.flight := rfl
  refine ⟨⟨_, congrArg Prod.fst hc⟩, ?_⟩
  rw [after_of_ok (m := .nominate r p) started hc]
  refine h.turned deed t started hp (by simp) hl (fun q pid hpp => ?_)
    (point_of_joint greeted t _ next ?_ ?_)
  · simp [quiet, sent_one, hpp.symm]
  · simp [quiet, Move.role, (Role.ne_peer r).symm, pending, ← same, new]
  · simp [quiet, Move.role, sent_one, Outcome.frame, Outcome.adding]

/-! ### The start -/

theorem Fair.begun (h : v.Fair ak nominator pids) {r : Role} (x' : Exchange S)
    (fresh : (v.pair.engine r).started = false) (device : x'.device = (v.pair.engine r).device)
    (started : x'.started = true) (nominated : x'.nominated = none)
    (kept : ∀ pid s, (v.pair.engine r).strand? pid = some s → ∃ s', x'.strand? pid = some s')
    (early : ∀ pid s, x'.strand? pid = some s → s.stage.isNominated = false)
    {ys : List (PathId × Outcome)} (silent : ∀ e ∈ ys, e.2.update = none)
    {flight' : Role → PathId → Bytes}
    (linked : ∀ pid ∈ pids, ∃ strand, Link ak nominator ⟨v.pair.set r x' ys, flight'⟩ pid strand) :
    Fair ak nominator pids ⟨v.pair.set r x' ys, flight'⟩ where
  device q := by
    by_cases hq : q = r
    · subst hq; rw [Pair.engine_set_self, device, h.device]
    · rw [Pair.engine_set_of_ne _ hq, h.device]
  settled q := by
    by_cases hq : q = r
    · subst hq
      rw [Pair.engine_set_self]
      refine ⟨fun pid s hs hi => ?_, fun pid s hn => ?_⟩
      · rw [early pid s hs] at hi; cases hi
      · rw [nominated] at hn; cases hn
    · rw [Pair.engine_set_of_ne _ hq]; exact h.settled q
  reach q pid hpid hn := by
    by_cases hq : q = r
    · subst hq
      obtain ⟨s, hs⟩ := h.reach q pid hpid (.inl (h.unstarted q fresh).1)
      rw [Pair.engine_set_self]
      exact kept pid s hs
    · rw [Pair.engine_set_of_ne _ hq] at hn ⊢; exact h.reach q pid hpid hn
  unstarted q hs := by
    by_cases hq : q = r
    · subst hq; rw [Pair.engine_set_self, started] at hs; cases hs
    · rw [Pair.engine_set_of_ne _ hq] at hs ⊢; exact h.unstarted q hs
  chosen q pid hn := by
    by_cases hq : q = r
    · subst hq; rw [Pair.engine_set_self, nominated] at hn; cases hn
    · rw [Pair.engine_set_of_ne _ hq] at hn; exact h.chosen q pid hn
  linked := linked
  readied q pid hr := by
    obtain ⟨o, rtt, hm, hu⟩ := hr
    rw [Pair.log_set] at hm
    rcases List.mem_append.1 hm with hm | hm
    · obtain ⟨e, he, heq⟩ := List.mem_map.1 hm
      obtain ⟨-, rfl⟩ := Prod.mk.inj heq
      rw [silent _ he] at hu
      cases hu
    · obtain ⟨hpid, begun, hready⟩ := h.readied q pid ⟨o, rtt, hm, hu⟩
      have hq : q ≠ r := fun hq => by rw [hq, fresh] at begun; cases begun
      rw [Pair.engine_set_of_ne _ hq]
      exact ⟨hpid, begun, hready⟩
  reported q pid s t hs hstage := by
    by_cases hq : q = r
    · subst hq
      rw [Pair.engine_set_self] at hs
      have unnamed := early pid s hs
      rw [hstage] at unnamed
      cases unnamed
    · rw [Pair.engine_set_of_ne _ hq] at hs
      exact (h.reported q pid s t hs hstage).mono ..

theorem goes_start_initiator (h : v.Fair ak nominator pids) {now : Nat} {s : Entropy}
    (fresh : (v.pair.engine .initiator).started = false)
    (hc : (v.pair.engine .initiator).call (.start now s) =
      (.ok [], { v.pair.engine .initiator with started := true })) :
    v.Goes ak nominator pids (.start .initiator now s) := by
  refine ⟨⟨[], congrArg Prod.fst hc⟩, ?_⟩
  rw [after_of_ok (m := .start .initiator now s) rfl hc]
  have hn := (h.unstarted .initiator fresh).1
  refine h.begun { v.pair.engine .initiator with started := true } fresh rfl rfl hn
    (fun pid s hs => ⟨s, hs⟩) (fun pid s hs => ?_) (by simp)
    fun pid hpid => ?_
  · by_contra hi
    have := (h.settled .initiator).named pid s hs (by simpa using hi)
    rw [hn] at this
    cases this
  · obtain ⟨strand, hl⟩ := h.linked pid hpid
    refine ⟨strand, fun q s hs => hl.shown q s ?_, fun q hi => ?_, hl.point.congr ?_ (fun _ => rfl) ?_⟩
    · cases q <;> exact hs
    · cases q <;> exact hl.named _ hi
    · rfl
    · intro q; simp [pending, left]

theorem Link.greeted {p : PathId} {strand : Role → Strand} (hl : v.Link ak nominator p strand)
    (fresh : (v.pair.engine .responder).started = false) {old : Strand}
    (hs : (v.pair.engine .responder).strand? p = some old) {x' : Exchange S}
    (started : x'.started = true) {secret : Octets 32} {challenge : Challenge} {now : Nat}
    (hn : x'.strand? p = some { old with stage := .awaitingAuthHello secret challenge now })
    (ys : List (PathId × Outcome)) {flight' : Role → PathId → Bytes}
    (theirs : flight' .initiator p = v.flight .initiator p)
    (mine : flight' .responder p = v.flight .responder p ++ (Lane.start (S.authKey ak .responder) p
      (.outbound .responder)).framed S (.hello challenge (S.publicKey secret))) :
    Link ak nominator ⟨v.pair.set .responder x' ys, flight'⟩ p
      (Function.update strand .responder
        { old with stage := .awaitingAuthHello secret challenge now }) := by
  have same := hl.shown .responder old hs
  rcases hl.point with ⟨-, waiting⟩ | ⟨greeted, -⟩
  swap
  · rw [fresh] at greeted; cases greeted
  have quiet (r : Role) : (strand r).inbox.buffer = [] ∧ v.flight r.peer p = [] :=
    List.append_eq_nil_iff.1 (waiting r).2
  refine ⟨fun q s hq => ?_, fun q hi => ?_,
    .inr ⟨started, @Pair.Joint.greeted _ _ _ _ _ _ secret challenge now ?_ rfl ?_ ?_⟩⟩
  · cases q with
    | initiator => exact hl.shown .initiator s hq
    | responder => exact Option.some.inj (hq.symm.trans hn)
  · cases q with
    | initiator => exact hl.named .initiator hi
    | responder => cases hi
  · exact (waiting .initiator).1
  · have unsent : v.flight .responder p = [] := (quiet .initiator).2
    rw [unsent, List.nil_append] at mine
    exact (congrArg (· ++ flight' .responder p) (quiet .initiator).1).trans mine
  · have unsent : v.flight .initiator p = [] := (quiet .responder).2
    rw [unsent] at theirs
    simp only [pending, Function.update_self, same, (quiet .responder).1, List.nil_append]
    exact theirs

theorem goes_start_responder (h : v.Fair ak nominator pids) {now : Nat} {s : Entropy}
    (fresh : (v.pair.engine .responder).started = false) {frames : List (PathId × Bytes)}
    {strands : List (PathId × Strand)} {used : List Sealing}
    (greets : Exchange.Greets S (v.pair.engine .responder).device now (v.pair.engine .responder).strands
      frames strands used)
    (hc : (v.pair.engine .responder).call (.start now s) =
      (.ok (frames.map fun (pid, frame) => (pid, Outcome.frame frame)),
        { v.pair.engine .responder with
          started := true, strands, used := used ++ (v.pair.engine .responder).used })) :
    v.Goes ak nominator pids (.start .responder now s) := by
  refine ⟨⟨_, congrArg Prod.fst hc⟩, ?_⟩
  rw [after_of_ok (m := .start .responder now s) rfl hc]
  obtain ⟨hn, nodup⟩ := h.unstarted .responder fresh
  have before (pid : PathId) : (v.pair.engine .responder).strand? pid =
      (v.pair.engine .responder).strands.lookup pid := by simp [Exchange.strand?, hn]
  let x' : Exchange S := { v.pair.engine .responder with
    started := true, strands, used := used ++ (v.pair.engine .responder).used }
  have after (pid : PathId) : x'.strand? pid = strands.lookup pid := by simp [Exchange.strand?, x', hn]
  refine h.begun x' fresh rfl rfl hn (fun pid old hs => ?_) (fun pid new hs => ?_) ?_
    fun pid hp => ?_
  · rw [before] at hs
    rcases greets.greeted pid with ⟨hnone, -⟩ | ⟨old', secret, challenge, -, hnew, -⟩
    · rw [hs] at hnone; cases hnone
    · exact ⟨_, (after pid).trans hnew⟩
  · rw [after] at hs
    rcases greets.greeted pid with ⟨-, hnone, -⟩ | ⟨old', secret, challenge, -, hnew, -⟩
    · rw [hs] at hnone; cases hnone
    · obtain rfl := Option.some.inj (hs.symm.trans hnew)
      rfl
  · intro e he
    obtain ⟨f, -, rfl⟩ := List.mem_map.1 he
    rfl
  · obtain ⟨strand, hl⟩ := h.linked pid hp
    obtain ⟨old, hs⟩ := h.reach .responder pid hp (.inl hn)
    have hold := (before pid).symm.trans hs
    rcases greets.greeted pid with ⟨hnone, -⟩ | ⟨old', secret, challenge, hold', hnew, hframe, -⟩
    · rw [hold] at hnone; cases hnone
    obtain rfl : old = old' := Option.some.inj (hold.symm.trans hold')
    have hsent := sent_frames (greets.paths.symm ▸ nodup : (frames.map Prod.fst).Nodup) pid
    rw [hframe, h.device] at hsent
    refine ⟨_, hl.greeted fresh hs rfl ((after pid).trans hnew) _ ?_ ?_⟩
    · exact List.append_nil _
    · exact congrArg (v.flight .responder pid ++ ·) hsent

theorem goes_start (h : v.Fair ak nominator pids) {r : Role} {now : Nat} {s : Entropy}
    (legal : v.Legal nominator pids (.start r now s)) : v.Goes ak nominator pids (.start r now s) := by
  have fresh : (v.pair.engine r).started = false := legal
  have role : (v.pair.engine r).device.role = r := by rw [h.device]
  rcases Exchange.start_cases (v.pair.engine r) now s with
    ⟨started, -⟩ | ⟨-, hr, hc⟩ | ⟨-, hr, frames, strands, used, greets, hc⟩
  · rw [fresh] at started; cases started
  · obtain rfl := role.symm.trans hr
    exact goes_start_initiator h fresh hc
  · obtain rfl := role.symm.trans hr
    exact goes_start_responder h fresh greets hc

/-! ### Runs -/

theorem Fair.goes (agrees : S.Agrees) (h : v.Fair ak nominator pids) {m : Move}
    (legal : v.Legal nominator pids m) : v.Goes ak nominator pids m := by
  cases m with
  | start => exact goes_start h legal
  | deliver => exact goes_deliver h legal
  | process => exact goes_process agrees h legal
  | nominate => exact goes_nominate h legal

theorem Fair.run (agrees : S.Agrees) (h : v.Fair ak nominator pids) (ms : List Move)
    (orderly : Orderly nominator pids ms v) :
    Succeeds ms v ∧ (run ms v).Fair ak nominator pids := by
  induction ms generalizing v with
  | nil => exact ⟨trivial, h⟩
  | cons m ms ih =>
    obtain ⟨succeeds, fair⟩ := h.goes agrees orderly.1
    obtain ⟨rest, fair⟩ := ih fair orderly.2
    exact ⟨⟨succeeds, rest⟩, fair⟩

theorem fair_met (met : v.Met ak nominator pids) : v.Fair ak nominator pids := by
  obtain ⟨⟨new, log⟩, flight⟩ := met
  have made (r : Role) := Exchange.new_ok (new r)
  have strand (r : Role) (pid : PathId) : (v.pair.engine r).strand? pid =
      if pid ∈ pids then some Strand.fresh else none := by
    rw [(made r).2]
    simp [Exchange.strand?, Exchange.lookup_fresh]
  have fresh {r : Role} {pid : PathId} {s : Strand} (hs : (v.pair.engine r).strand? pid = some s) :
      s = Strand.fresh := by
    rw [strand] at hs
    split_ifs at hs
    exact (Option.some.inj hs).symm
  have nominated (r : Role) : (v.pair.engine r).nominated = none := by rw [(made r).2]
  have point (pid : PathId) : v.Point ak nominator pid fun _ => Strand.fresh := by
    refine .inl ⟨by rw [(made .responder).2], fun r => ⟨rfl, ?_⟩⟩
    simp [pending, Strand.fresh, Reassembly.empty, flight]
  exact {
    device := fun r => by rw [(made r).2]
    settled := fun r => {
      named := fun pid s hs hi => by rw [fresh hs] at hi; cases hi
      stays := fun pid s hn => by rw [nominated] at hn; cases hn }
    reach := fun r pid hp _ => ⟨_, (strand r pid).trans (if_pos hp)⟩
    unstarted := fun r _ => ⟨nominated r, by
      rw [(made r).2]
      simpa [Exchange.pids, Function.comp_def] using (made r).1⟩
    chosen := fun r pid hn => by rw [nominated] at hn; cases hn
    linked := fun pid _ => ⟨fun _ => .fresh, fun r s => fresh, fun r hi => (by cases hi), point pid⟩
    readied := fun r pid hr => by
      obtain ⟨o, rtt, hm, -⟩ := hr
      rw [log] at hm
      cases hm
    reported := fun r pid s t hs hstage => by rw [fresh hs] at hstage; cases hstage }

end Relay

end PathRace
