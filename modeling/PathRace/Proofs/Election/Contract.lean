import PathRace.Proofs.Election.WinnerTakesAll
import PathRace.Proofs.Exchange.Nonces
import PathRace.Proofs.Pair.Agreement
import PathRace.Proofs.Session.Engaged

/-! The key exchange meets the contract that its drivers check. While an election is open, its engine
has nominated nothing and every candidate is ready (`Open`), so `nominate` succeeds when it is called. A
nominated path yields payloads and failures only (`Session.Engaged`). -/

namespace PathRace

/-- The counter of a path is not exhausted before the path is nominated. -/
def Stage.Unworn : Stage → Prop
  | awaitingAuth transport .. | ready transport => transport.tx.isExhausted = false
  | _ => True

namespace Exchange

variable {S : Suite} {x x' : Exchange S} {pid : PathId} {c : Call} {old new : Strand}
  {used : List Sealing} {o : Option Outcome}

def Eligible (x : Exchange S) (pid : PathId) : Prop :=
  ∃ inbox transport, x.strand? pid = some ⟨inbox, .ready transport⟩

theorem Deed.unworn {d : Device} (h : Deed S d pid c old new used o) (ho : old.stage.Unworn) :
    new.stage.Unworn := by
  cases h with
  | fed => exact ho
  | refused | nominated | exhausted | sent => trivial
  | took next advance =>
    cases advance with
    | answered => exact Transport.isExhausted_start_tx ..
    | proven opened agreed start => subst start; rfl
    | confirmed => exact ho
    | nominated | carried => trivial

theorem Settled.turned_of_addChunk (h : x.Settled) {chunk : Bytes}
    (hc : Engine.addChunk pid chunk x = (.ok (), x')) :
    ∃ old new used, Deed S x.device pid (.addChunk pid chunk) old new used none ∧
      Turned x x' pid old new used := by
  have hc : x.addChunk pid chunk = (.ok (), x') := hc
  unfold addChunk at hc
  split at hc
  · simp at hc
  · rename_i strand hs
    obtain ⟨-, rfl⟩ := Prod.mk.inj hc
    have turned : Turned x ((x.record []).put pid ⟨strand.inbox.push chunk, strand.stage⟩) pid
        strand _ [] := turned_put hs (h.named pid strand hs)
    exact ⟨strand, _, [], .fed, turned⟩

theorem nominate_of_eligible {inbox : Reassembly} {transport : Transport}
    (nominator : x.device.isNominator = true) (unnamed : x.nominated = none)
    (hs : x.strand? pid = some ⟨inbox, .ready transport⟩) (fresh : transport.tx.isExhausted = false) :
    ∃ x' new used, Engine.nominate pid x = (.ok ((Outcome.frame (transport.tx.framed S .nominate)).adding
        (.nominated transport.hash)), x') ∧
      Deed S x.device pid (.nominate pid) ⟨inbox, .ready transport⟩ new used
        (some ((Outcome.frame (transport.tx.framed S .nominate)).adding
          (.nominated transport.hash))) ∧
      Turned x x' pid ⟨inbox, .ready transport⟩ new used ∧ new.stage.isNominated = true := by
  refine ⟨_, _, _, ?_, .nominated nominator fresh, turned_settle hs rfl, rfl⟩
  simp [Engine.nominate, nominate, nominator, unnamed, hs, Lane.send_of_fits fresh Lane.fits_nominate]

/-- An eligible path stays eligible unless it has its turn or another path is nominated. -/
theorem Eligible.turned {q : PathId} (h : x.Eligible q) (t : Turned x x' pid old new used)
    (hn : new.stage.isNominated = false)
    (own : ∀ transport, old.stage = .ready transport → ∃ inbox transport',
      new = ⟨inbox, .ready transport'⟩) : x'.Eligible q := by
  obtain ⟨inbox, transport, hs⟩ := h
  by_cases hq : q = pid
  · subst hq
    obtain rfl : old = ⟨inbox, .ready transport⟩ := Option.some.inj (t.before.symm.trans hs)
    obtain ⟨inbox', transport', rfl⟩ := own transport rfl
    exact ⟨inbox', transport', t.after⟩
  · exact ⟨inbox, transport, by rw [t.others q hq, hn]; exact hs⟩

end Exchange

namespace Shortlist

theorem choose_mem (qualifies : PathId → Bool) (l : Shortlist) :
    (∀ chosen ∈ (l.choose qualifies).1, ∃ c ∈ l.candidates, c.1 = chosen) ∧
      (l.choose qualifies).2.candidates = [] := by
  unfold choose
  rcases hb : quickest (l.candidates.filter fun c => qualifies c.1) with _ | best
  · exact ⟨by simp, rfl⟩
  · have hm := (List.mem_filter.1 (mem_of_quickest hb)).1
    dsimp only [request]
    split
    · exact ⟨by simp, rfl⟩
    · exact ⟨fun chosen hc => ⟨best, hm, Option.some.inj hc⟩, rfl⟩

theorem onReady_mem (pid : PathId) (rtt now : Nat) (l : Shortlist) :
    (∀ chosen ∈ (l.onReady pid rtt now).1, ∃ c ∈ l.candidates ++ [(pid, rtt)], c.1 = chosen) ∧
      ∀ c ∈ (l.onReady pid rtt now).2.candidates, c ∈ l.candidates ++ [(pid, rtt)] := by
  have kept : ∀ c ∈ l.candidates, c ∈ l.candidates ++ [(pid, rtt)] :=
    fun c hc => List.mem_append_left _ hc
  unfold onReady
  split_ifs
  · exact ⟨by simp, kept⟩
  · split
    · unfold request
      split
      · exact ⟨by simp, kept⟩
      · exact ⟨fun chosen hc => ⟨(pid, rtt), by simp, Option.some.inj hc⟩, kept⟩
    · dsimp only
      split_ifs
      · obtain ⟨chosen, none⟩ := choose_mem (fun _ => true)
          { l with candidates := l.candidates ++ [(pid, rtt)] }
        exact ⟨chosen, by rw [none]; simp⟩
      · exact ⟨by simp, fun c hc => hc⟩

end Shortlist

namespace Watched

variable {E : Type}

/-- No nomination in the log was refused. -/
def Obeyed (w : Watched E) : Prop :=
  ∀ pid answer, .nominated pid answer ∈ w.log → ∃ o, answer = .ok o

theorem Obeyed.note {w : Watched E} (h : w.Obeyed) {a : Asked}
    (ha : ∀ pid answer, a = .nominated pid answer → ∃ o, answer = .ok o) (engine : E) :
    (w.note a engine).Obeyed := by
  intro pid answer hm
  rcases List.mem_append.1 hm with hm | hm
  · exact h pid answer hm
  · exact ha pid answer (List.mem_singleton.1 hm).symm

end Watched

namespace Election

variable {S : Suite} {e e' : Election (Watched (Exchange S))} {pid : PathId} {now : Nat}

/-! ### Before the nomination -/

/-- Nothing has been nominated, and every candidate is eligible. -/
structure Open (e : Election (Watched (Exchange S))) : Prop where
  phase : e.phase = .nominating
  obeyed : e.engine.Obeyed
  settled : e.engine.engine.Settled
  unnamed : e.engine.engine.nominated = none
  unworn : ∀ pid strand, e.engine.engine.strand? pid = some strand → strand.stage.Unworn
  eligible : ∀ c ∈ e.shortlist.candidates,
    e.engine.engine.device.isNominator = true ∧ e.engine.engine.Eligible c.1

structure Over (e : Election (Watched (Exchange S))) : Prop where
  phase : e.phase = .nominated
  obeyed : e.engine.Obeyed
  settled : e.engine.engine.Settled
  named : ∃ pid, e.engine.engine.nominated = some pid

/-- A call that succeeds leaves the election open or over, and one that fails is not a breach of
contract. -/
def Keeps : Except Failure (List Action) × Election (Watched (Exchange S)) → Prop
  | (.ok _, e) => e.Open ∨ e.Over
  | (.error failure, e) => e.engine.Obeyed ∧ failure.isBreach = false

theorem Keeps.map {answer : Except Failure (List Action)} (f : List Action → List Action)
    (h : Keeps (answer, e)) : Keeps (answer.map f, e) := by
  cases answer <;> exact h

theorem Open.nominate {shortlist : Shortlist} (h : e.Open)
    (nominator : e.engine.engine.device.isNominator = true) (eligible : e.engine.engine.Eligible pid) :
    Keeps (Election.nominate pid { e with shortlist }) := by
  obtain ⟨inbox, transport, hs⟩ := eligible
  obtain ⟨x', new, used, answer, deed, turned, hn⟩ :=
    Exchange.nominate_of_eligible nominator h.unnamed hs (h.unworn pid _ hs)
  have named : x'.nominated = some pid := by rw [turned.nominated, if_pos hn]
  unfold Election.nominate
  rw [Watched.nominate_eq, answer]
  have path (a : Asked) : Engine.nominatedPath (e.engine.note a x') = some pid := named
  simp only [accept, Outcome.adding, Outcome.frame, Outcome.none, Option.isSome_none, path, ne_eq,
    not_true_eq_false, Bool.false_eq_true, if_false]
  refine .inr ⟨rfl, h.obeyed.note (fun q given ha => ?_) x', h.settled.turned deed turned, pid, named⟩
  obtain ⟨-, rfl⟩ := Asked.nominated.inj ha
  exact ⟨_, rfl⟩

theorem Open.onReady (h : e.Open) (ready : e.engine.engine.Eligible pid) (rtt : Nat) :
    Keeps (e.onReady pid now rtt) := by
  unfold Election.onReady
  by_cases nominator : Engine.isNominator e.engine = true
  · rw [if_neg (not_not.2 nominator)]
    have eligible : ∀ c ∈ e.shortlist.candidates ++ [(pid, rtt)], e.engine.engine.Eligible c.1 := by
      intro c hc
      rcases List.mem_append.1 hc with hc | hc
      · exact (h.eligible c hc).2
      · rw [List.mem_singleton.1 hc]; exact ready
    obtain ⟨chosen, kept⟩ := Shortlist.onReady_mem pid rtt now e.shortlist
    rcases hl : e.shortlist.onReady pid rtt now with ⟨_ | q, shortlist⟩ <;> rw [hl] at chosen kept
    · exact .inl { h with eligible := fun c hc => ⟨nominator, eligible c (kept c hc)⟩ }
    · obtain ⟨c, hc, rfl⟩ := chosen q rfl
      exact h.nominate nominator (eligible c hc)
  · rw [if_pos nominator]
    exact .inl h

theorem Open.onDeadline (h : e.Open) (live : List PathId) : Keeps (e.onDeadline live) := by
  unfold Election.onDeadline
  obtain ⟨chosen, none⟩ := Shortlist.choose_mem (fun pid => live.contains pid)
    { e.shortlist with deadline := .none }
  rw [← Shortlist.expire] at chosen none
  rcases hl : e.shortlist.expire live with ⟨_ | q, shortlist⟩ <;> rw [hl] at chosen none
  · have empty : shortlist.candidates = [] := none
    exact .inl { h with eligible := fun c hc => by rw [empty] at hc; cases hc }
  · obtain ⟨c, hc, rfl⟩ := chosen q rfl
    exact h.nominate (h.eligible c hc).1 (h.eligible c hc).2

theorem Open.turned {c : PathRace.Call} {x' : Exchange S} {old new : Strand} {used : List Sealing}
    {o : Option Outcome} {a : Asked} (h : e.Open)
    (deed : Exchange.Deed S e.engine.engine.device pid c old new used o)
    (t : Exchange.Turned e.engine.engine x' pid old new used)
    (quiet : ∀ pid answer, a ≠ .nominated pid answer) (hn : new.stage.isNominated = false)
    (own : ∀ transport, old.stage = .ready transport → ∃ inbox transport',
      new = ⟨inbox, .ready transport'⟩) :
    Open { e with engine := e.engine.note a x' } where
  phase := h.phase
  obeyed := h.obeyed.note (fun pid answer ha => absurd ha (quiet pid answer)) x'
  settled := h.settled.turned deed t
  unnamed := by
    show x'.nominated = none
    rw [t.nominated, hn]
    exact h.unnamed
  unworn q strand hs := by
    by_cases hq : q = pid
    · subst hq
      obtain rfl : new = strand := Option.some.inj (t.after.symm.trans hs)
      exact deed.unworn (h.unworn q old t.before)
    · have hs : x'.strand? q = some strand := hs
      rw [t.others q hq, hn] at hs
      exact h.unworn q strand hs
  eligible c hc := by
    obtain ⟨nominator, eligible⟩ := h.eligible c hc
    exact ⟨by rw [← nominator]; exact congrArg Device.isNominator t.device, eligible.turned t hn own⟩

theorem Open.accept (h : e.Open) {s s' : Entropy} {o : Outcome} {x' : Exchange S}
    (answer : Engine.processFrame pid now e.engine.engine s = (.ok (some o), x', s')) :
    Keeps (Election.accept pid o (Election.onReady pid now)
      { e with engine := e.engine.note (.processed pid (.ok (some o))) x' }) := by
  obtain ⟨old, new, used, deed, turned⟩ := Exchange.turned_of_processFrame answer
  have settled : x'.Settled := h.settled.turned deed turned
  have still := h.turned (a := .processed pid (.ok (some o))) deed turned (by simp)
  cases deed with
  | took next advance =>
    cases advance with
    | answered => exact .inl (still rfl (by simp))
    | proven | confirmed => exact ((still rfl (by simp)).onReady ⟨_, _, turned.after⟩ _).map _
    | nominated opened follows =>
      have named : x'.nominated = some pid := turned.nominated
      have path (a : Asked) : Engine.nominatedPath (e.engine.note a x') = some pid := named
      simp only [Election.accept, Outcome.news, Outcome.none, Option.isSome_none, path, ne_eq,
        not_true_eq_false, Bool.false_eq_true, if_false]
      exact .inr ⟨rfl, h.obeyed.note (a := .processed pid (.ok (some _))) (by simp) x', settled, pid, named⟩
    | carried opened =>
      -- payload needs a nomination
      have named := h.settled.named pid _ turned.before rfl
      rw [h.unnamed] at named
      cases named

theorem Open.note (h : e.Open) {a : Asked} (quiet : ∀ pid answer, a ≠ .nominated pid answer) :
    Open { e with engine := e.engine.note a e.engine.engine } :=
  { h with obeyed := h.obeyed.note (fun pid answer ha => absurd ha (quiet pid answer)) _ }

theorem Open.drain (h : e.Open) (pid : PathId) (now n : Nat) (s : Entropy) :
    Keeps ((drain pid now n e s).1, (drain pid now n e s).2.1) := by
  induction n generalizing e s with
  | zero => exact .inl h
  | succ n ih =>
    rw [Election.drain, if_neg (not_not.2 h.phase), Watched.processFrame_eq]
    rcases hf : Engine.processFrame pid now e.engine.engine s with ⟨fault | _ | o, x', s'⟩
    · exact ⟨h.obeyed.note (a := .processed pid (.error fault)) (by simp) x', rfl⟩
    · obtain ⟨rfl, -⟩ := Exchange.processFrame_none hf
      exact .inl (h.note (by simp))
    · have accepted := h.accept hf
      dsimp only
      rcases ha : Election.accept pid o (Election.onReady pid now) _ with ⟨failure | first, e'⟩
      · rw [ha] at accepted
        exact accepted
      · rw [ha] at accepted
        rcases accepted with still | ended
        · exact (ih still s').map _
        · have left : e'.phase ≠ .nominating := by simp [ended.phase]
          dsimp only
          rw [drain_of_over left]
          exact .inr ended

theorem Open.onChunk (h : e.Open) (pid : PathId) (chunk : Bytes) (now : Nat) (s : Entropy) :
    Keeps ((e.onChunk pid chunk now s).1, (e.onChunk pid chunk now s).2.1) := by
  unfold Election.onChunk
  rw [Watched.addChunk_eq]
  rcases hc : Engine.addChunk pid chunk e.engine.engine with ⟨fault | _, x'⟩
  · exact ⟨h.obeyed.note (a := .fed pid (.error fault)) (by simp) x', rfl⟩
  · obtain ⟨old, new, used, deed, turned⟩ := h.settled.turned_of_addChunk hc
    have still := h.turned (a := .fed pid (.ok ())) deed turned (by simp)
    cases deed with
    | @fed inbox stage chunk =>
      have waits : stage.isNominated = false := by
        by_contra hn
        have named := h.settled.named pid _ turned.before (by simpa using hn)
        rw [h.unnamed] at named
        cases named
      refine (still waits fun transport ready => ⟨inbox.push chunk, transport, ?_⟩).drain pid now _ s
      exact congrArg (Strand.mk _) ready

/-! ### Whole lives -/

/-- An invariant of elections over the key exchange. -/
structure Kept (e : Election (Watched (Exchange S))) : Prop where
  obeyed : e.engine.Obeyed
  opened : e.phase = .nominating → e.Open
  ended : e.phase = .nominated → e.Over

theorem Open.kept (h : e.Open) : e.Kept where
  obeyed := h.obeyed
  opened _ := h
  ended hp := by rw [h.phase] at hp; cases hp

theorem Over.kept (h : e.Over) : e.Kept where
  obeyed := h.obeyed
  opened hp := by rw [h.phase] at hp; cases hp
  ended _ := h

theorem Keeps.kept {answer : Except Failure (List Action)} (h : Keeps (answer, e)) :
    (∀ failure, answer = .error failure → failure.isBreach = false) ∧
      Kept (match answer with
        | .error _ => { e with phase := .aborted }
        | .ok _ => e) := by
  cases answer with
  | error failure => exact ⟨fun _ hf => Except.error.inj hf ▸ h.2, h.1, nofun, nofun⟩
  | ok actions => exact ⟨nofun, h.elim Open.kept Over.kept⟩

theorem Open.handle (h : e.Open) (event : Event) (now : Nat) (s : Entropy) :
    (∀ failure, (e.handle event now s).1 = .error failure → failure.isBreach = false) ∧
      (e.handle event now s).2.1.Kept := by
  unfold Election.handle
  rw [if_neg (not_not.2 h.phase)]
  cases event with
  | frame pid chunk =>
    have kept := (h.onChunk pid chunk now s).kept
    rcases hc : e.onChunk pid chunk now s with ⟨failure | actions, e', s'⟩ <;>
      simpa only [hc] using kept
  | deadline live =>
    have keeps := h.onDeadline live
    rcases hd : e.onDeadline live with ⟨failure | actions, e'⟩ <;> rw [hd] at keeps <;>
      simpa only [hd] using keeps.kept

theorem Kept.handle (h : e.Kept) (event : Event) (now : Nat) (s : Entropy) :
    (e.handle event now s).2.1.Kept := by
  by_cases hp : e.phase = .nominating
  · exact ((h.opened hp).handle event now s).2
  · unfold Election.handle
    rw [if_pos hp]
    exact h

theorem Kept.life (h : e.Kept) (events : List (Event × Nat × Entropy)) :
    (life (events.map fun (event, now, s) => .handle event now s) e).2.Kept := by
  induction events generalizing e with
  | nil => exact h
  | cons event events ih => exact ih (h.handle event.1 event.2.1 event.2.2)

theorem open_start {x : Exchange S} (h : x.Waiting) (policy : Policy) (now : Nat) (s : Entropy) :
    (∃ actions, ((new (Watched.new x) policy).start now s).1 = .ok actions) ∧
      ((new (Watched.new x) policy).start now s).2.1.Open := by
  obtain ⟨frames, x', s', answer, -, unnamed, strands⟩ := h.initialFrames now s
  have early (pid : PathId) (strand : Strand) (hs : x'.strand? pid = some strand) :
      strand.stage.isNominated = false ∧ strand.stage.Unworn := by
    rcases strands pid with ⟨-, none⟩ | ⟨stage, -, some, early⟩
    · rw [none] at hs; cases hs
    · obtain rfl := Option.some.inj (some.symm.trans hs)
      rcases early with rfl | ⟨secret, challenge, rfl⟩ <;> exact ⟨rfl, trivial⟩
  simp only [start, new, Watched.initialFrames_eq, Watched.new, answer, ne_eq, not_true_eq_false,
    if_false]
  refine ⟨⟨_, rfl⟩, rfl, ?_, ⟨?_, ?_⟩, unnamed, fun pid strand hs => (early pid strand hs).2,
    by simp [Shortlist.new]⟩
  · intro pid answer hm
    cases List.mem_singleton.1 hm
  · intro pid strand hs hn
    rw [(early pid strand hs).1] at hn
    cases hn
  · intro pid strand hn
    have hn : x'.nominated = some pid := hn
    rw [unnamed] at hn
    cases hn

/-- The key exchange keeps the contract of engines. For any events after the start, every nomination
that the election asks for is made, and while the election is open no call finds the engine in breach.
When it is over, the engine has nominated a path, and neither the reader nor the writer of that path
finds the engine in breach. -/
theorem contract_honoured {setup : Setup} {x : Exchange S} (hx : Exchange.new S setup = .ok x)
    (policy : Policy) (now : Nat) (s : Entropy) (events : List (Event × Nat × Entropy)) :
    let calls := .start now s :: events.map fun (event, now, s) => .handle event now s
    let e := (life calls (new x policy)).2
    let w := (life calls (new (Watched.new x) policy)).2
    w.unwatched = e ∧ (∃ actions, ((new x policy).start now s).1 = .ok actions) ∧
    (∀ pid answer, .nominated pid answer ∈ w.engine.log → ∃ o, answer = .ok o) ∧
    (e.phase = .nominating → ∀ event now s failure, (e.handle event now s).1 = .error failure →
      failure.isBreach = false) ∧
    (e.phase = .nominated → ∃ pid, Engine.nominatedPath e.engine = some pid ∧
      ∀ race hash uses, ∀ failure ∈ Session.uses uses ⟨race, .connected e.engine pid hash⟩,
        failure.isBreach = false) := by
  intro calls e w
  have same : w.unwatched = e :=
    (congrArg Prod.snd (life_unwatched calls (new (Watched.new x) policy))).symm
  obtain ⟨⟨actions, started⟩, opened⟩ := open_start (Exchange.waiting_new hx) policy now s
  have kept : w.Kept := opened.kept.life events
  refine ⟨same, ?_, kept.obeyed, fun hp event now s failure hf => ?_, fun hp => ?_⟩
  · exact ⟨actions, (congrArg Prod.fst (start_unwatched now (new (Watched.new x) policy) s)).trans
      started⟩
  · rw [← same, handle_unwatched] at hf
    exact ((kept.opened (by rw [← hp, ← same]; rfl)).handle event now s).1 failure hf
  · have ended := kept.ended (by rw [← hp, ← same]; rfl)
    obtain ⟨pid, named⟩ := ended.named
    rw [← same]
    exact ⟨pid, named, fun race hash uses =>
      Session.engaged_uses ⟨_, pid, hash, rfl, ended.settled, named⟩ uses⟩

/-- The frames of a handshake that nominates the path, with an empty frame after the last. -/
def plainEvents : List (Event × Nat × Entropy) :=
  let hello := Pair.plainFrame (Suite.plain.authKey (Octets.zero 32) .responder) .responder
    (.hello (Pair.plainChallenge 1) (Pair.plainSecret 1))
  let auth := Pair.plainFrame Pair.plainKeys.responder .responder (.auth (Pair.plainChallenge 2))
  [(.frame 7 hello, 0, .cycle [2]), (.frame 7 (auth ++ [0, 0, 0, 0]), 0, .cycle [])]

/-- The empty frame makes the reader fail, and then the writer. -/
theorem contract_honoured_plain :
    let x := Pair.plainPair.engine .initiator
    let calls := .start 0 (.cycle []) :: plainEvents.map fun (event, now, s) => .handle event now s
    let e := (life calls (new x .eager)).2
    let w := (life calls (new (Watched.new x) .eager)).2
    let failures := Session.uses [.take 0 (.cycle []), .send [1, 2], .feed]
      ⟨Race.idle, .connected e.engine 7 Pair.plainKeys.hash⟩
    Exchange.new Suite.plain ⟨.initiator, true, Octets.zero 32, [7]⟩ = .ok x ∧
    e.phase = .nominated ∧ w.engine.nominations = [7] ∧
    (∀ pid answer, .nominated pid answer ∈ w.engine.log → ∃ o, answer = .ok o) ∧
    failures = [.engine .nominated (some 7) "process frame" (.crypto .decryptionFailed),
      .aborted .protocolError, .closed] ∧
    ∀ failure ∈ failures, failure.isBreach = false := by
  intro x calls e w failures
  have hx : Exchange.new Suite.plain ⟨.initiator, true, Octets.zero 32, [7]⟩ = .ok x := by
    simp [Exchange.new, x, Pair.plainPair]
  have ended : e.phase = .nominated := by decide +kernel
  have asked : w.engine.nominations = [7] := by decide +kernel
  have winner : Engine.nominatedPath e.engine = some 7 := by decide +kernel
  obtain ⟨-, -, obeyed, -, reads⟩ := contract_honoured hx .eager 0 (.cycle []) plainEvents
  obtain ⟨pid, named, honest⟩ := reads ended
  obtain rfl : pid = 7 := Option.some.inj (named.symm.trans winner)
  exact ⟨hx, ended, asked, obeyed, by decide +kernel, honest Race.idle Pair.plainKeys.hash _⟩

end Election

end PathRace
