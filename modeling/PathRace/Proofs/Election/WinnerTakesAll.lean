import PathRace.Proofs.Election.Watched
import PathRace.Script

/-! At most one winner per election, for every engine. At most one path is requested, and only by an
engine in the nominator role (`Modest`); the effect of a call is determined by the engine's answers
during it (`Went`). -/

namespace PathRace

def Action.sent? : Action → Option (PathId × Bytes)
  | .send pid frame => some (pid, frame)
  | .nominated .. => none

def sends (actions : List Action) : List (PathId × Bytes) := actions.filterMap Action.sent?

@[simp] theorem sends_nil : sends [] = [] := rfl

@[simp] theorem sends_send (pid : PathId) (frame : Bytes) (rest : List Action) :
    sends (.send pid frame :: rest) = (pid, frame) :: sends rest := rfl

@[simp] theorem sends_nominated (pid : PathId) (hash : PathHash) (rest : List Action) :
    sends (.nominated pid hash :: rest) = sends rest := rfl

@[simp] theorem sends_append (a b : List Action) : sends (a ++ b) = sends a ++ sends b :=
  List.filterMap_append

@[simp] theorem sends_map_send (pid : PathId) (frames : List Bytes) :
    sends (frames.map (Action.send pid)) = frames.map (pid, ·) := by
  induction frames with
  | nil => rfl
  | cons frame rest ih => simpa [sends, Action.sent?] using ih

namespace Shortlist

/-! ### The quickest -/

theorem quickest_eq_none_iff {l : List (PathId × Nat)} : quickest l = none ↔ l = [] := by
  cases l with
  | nil => simp [quickest]
  | cons c rest =>
    rw [quickest]
    cases quickest rest with
    | none => simp
    | some d => dsimp only; split_ifs <;> simp

/-- The quickest candidate comes before its equals. -/
theorem split_of_quickest {l : List (PathId × Nat)} {c : PathId × Nat} (h : quickest l = some c) :
    ∃ before after, l = before ++ c :: after ∧ (∀ d ∈ before, c.2 < d.2) ∧
      ∀ d ∈ after, c.2 ≤ d.2 := by
  induction l generalizing c with
  | nil => cases h
  | cons d rest ih =>
    rw [quickest] at h
    cases hr : quickest rest with
    | none =>
      rw [hr] at h
      obtain rfl := Option.some.inj h
      obtain rfl := quickest_eq_none_iff.1 hr
      exact ⟨[], [], rfl, by simp, by simp⟩
    | some best =>
      obtain ⟨before, after, rfl, earlier, later⟩ := ih hr
      simp only [hr] at h
      split_ifs at h with quicker
      · obtain rfl := Option.some.inj h
        exact ⟨d :: before, after, rfl, by simpa [quicker] using earlier, later⟩
      · obtain rfl := Option.some.inj h
        have most : d.2 ≤ best.2 := not_lt.1 quicker
        refine ⟨[], before ++ best :: after, rfl, by simp, fun q hq => ?_⟩
        rcases List.mem_append.1 hq with hq | hq
        · exact most.trans (earlier q hq).le
        · rcases List.mem_cons.1 hq with rfl | hq
          · exact most
          · exact most.trans (later q hq)

theorem mem_of_quickest {l : List (PathId × Nat)} {c : PathId × Nat} (h : quickest l = some c) :
    c ∈ l := by
  obtain ⟨before, after, rfl, -⟩ := split_of_quickest h
  exact List.mem_append_right _ List.mem_cons_self

/-! ### Candidates -/

theorem candidates_of_expire {live : List PathId} {l l' : Shortlist} {chosen : PathId}
    (h : l.expire live = (some chosen, l')) : l.candidates ≠ [] := by
  intro hc
  simp [expire, choose, hc, quickest] at h

theorem candidates_expire (live : List PathId) (l : Shortlist) :
    (l.expire live).2.candidates = [] := by
  simp only [expire, choose]
  cases quickest (l.candidates.filter fun c => live.contains c.1) with
  | none => rfl
  | some best =>
    simp only [request]
    cases l.requested <;> rfl

end Shortlist

namespace Election

variable {E : Type} [Engine E]

/-! ### Requests -/

/-- The engine has been asked for at most one nomination, and was the nominator before there was any
candidate. -/
structure Modest (e : Election (Watched E)) : Prop where
  once : e.engine.nominations = [] ∨
    e.engine.nominations.length = 1 ∧ e.shortlist.requested.isSome = true
  entitled : e.shortlist.candidates ≠ [] ∨ e.shortlist.requested.isSome = true →
    ∃ a ∈ e.engine.seen, Engine.isNominator a = true
  current : e.engine.engine ∈ e.engine.seen

variable {e e' : Election (Watched E)} {pid : PathId}

theorem Modest.phase (h : e.Modest) (phase : Phase) : Modest { e with phase } :=
  ⟨h.once, h.entitled, h.current⟩

theorem Modest.note (h : e.Modest) {a : Asked} (other : a.nomination? = none) (engine : E) :
    Modest { e with engine := e.engine.note a engine } where
  once := by
    rw [Watched.nominations_note other]
    exact h.once
  entitled asked := by
    obtain ⟨b, hb, nominator⟩ := h.entitled asked
    exact ⟨b, List.mem_append_left _ hb, nominator⟩
  current := List.mem_append_right _ (List.mem_singleton_self engine)

/-- Accepting an outcome changes nothing, ends the election, or does what `onReady` does. -/
theorem accept_leaves (pid : PathId) (o : Outcome)
    (onReady : Nat → Election E → Except Failure (List Action) × Election E) (e : Election E) :
    (e.accept pid o onReady).2 = e ∨ (e.accept pid o onReady).2 = { e with phase := .nominated } ∨
      ∃ rtt, (e.accept pid o onReady).2 = (onReady rtt e).2 := by
  by_cases hulp : o.ulp.isSome = true
  · exact .inl (by simp [accept, hulp])
  · simp only [accept, hulp, Bool.false_eq_true, if_false]
    cases o.update with
    | none => exact .inl rfl
    | some u =>
      cases u with
      | ready rtt => exact .inr (.inr ⟨rtt, rfl⟩)
      | nominated hash =>
        dsimp only
        split_ifs
        · exact .inl rfl
        · exact .inr (.inl rfl)

theorem modest_accept (h : e.Modest) {o : Outcome}
    {onReady : Nat → Election (Watched E) → Except Failure (List Action) × Election (Watched E)}
    (ready : ∀ rtt, (onReady rtt e).2.Modest) : (e.accept pid o onReady).2.Modest := by
  rcases accept_leaves pid o onReady e with he | he | ⟨rtt, he⟩
  · rw [he]; exact h
  · rw [he]; exact h.phase .nominated
  · rw [he]; exact ready rtt

theorem Modest.nominate {shortlist : Shortlist} (h : e.Modest)
    (picks : e.shortlist.Picks (some pid, shortlist))
    (nominator : ∃ a ∈ e.engine.seen, Engine.isNominator a = true) :
    (nominate pid { e with shortlist }).2.Modest := by
  obtain ⟨before, chosen⟩ := picks
  have never : e.engine.nominations = [] := by
    refine h.once.resolve_right fun ⟨_, requested⟩ => ?_
    rw [before] at requested
    cases requested
  have asked (answer : Except EngineFault Outcome) (engine : E) :
      Modest { e with engine := e.engine.note (.nominated pid answer) engine, shortlist } := by
    refine ⟨.inr ⟨?_, by rw [chosen]; rfl⟩, fun _ => ?_, ?_⟩
    · rw [Watched.nominations_note_nominated, never]
      rfl
    · obtain ⟨a, ha, hn⟩ := nominator
      exact ⟨a, List.mem_append_left _ ha, hn⟩
    · exact List.mem_append_right _ (List.mem_singleton_self engine)
  unfold Election.nominate
  rw [Watched.nominate_eq]
  rcases Engine.nominate pid e.engine.engine with ⟨fault | o, engine⟩
  · exact asked _ engine
  · exact modest_accept (asked _ engine) fun _ => asked _ engine

theorem Modest.onReady (h : e.Modest) (pid : PathId) (now rtt : Nat) :
    (e.onReady pid now rtt).2.Modest := by
  unfold Election.onReady
  by_cases hn : Engine.isNominator e.engine = true
  · rw [if_neg (not_not.2 hn)]
    have nominator : Engine.isNominator e.engine.engine = true := hn
    have picks := Shortlist.picks_onReady pid rtt now e.shortlist
    revert picks
    rcases e.shortlist.onReady pid rtt now with ⟨_ | chosen, shortlist⟩
    · intro requested
      refine ⟨?_, fun _ => ⟨_, h.current, nominator⟩, h.current⟩
      rw [show shortlist.requested = e.shortlist.requested from requested]
      exact h.once
    · intro picks
      exact h.nominate picks ⟨_, h.current, nominator⟩
  · rw [if_pos hn]
    exact h

theorem Modest.drain (h : e.Modest) (pid : PathId) (now n : Nat) (s : Entropy) :
    (Election.drain pid now n e s).2.1.Modest := by
  induction n generalizing e s with
  | zero => exact h
  | succ n ih =>
    rw [Election.drain]
    by_cases hp : e.phase = .nominating
    · rw [if_neg (not_not.2 hp), Watched.processFrame_eq]
      rcases Engine.processFrame pid now e.engine.engine s with ⟨fault | _ | o, engine, s⟩
      · exact h.note rfl engine
      · exact h.note rfl engine
      · have noted := h.note (a := .processed pid (.ok (some o))) rfl engine
        have accepted : (Election.accept pid o (Election.onReady pid now)
            { e with engine := e.engine.note (.processed pid (.ok (some o))) engine }).2.Modest :=
          modest_accept noted fun rtt => noted.onReady pid now rtt
        revert accepted
        dsimp only
        generalize Election.accept (E := Watched E) pid o _ _ = accepted
        rcases accepted with ⟨failure | first, e⟩
        · exact id
        · exact fun accepted => ih accepted s
    · rw [if_pos hp]
      exact h

theorem Modest.onChunk (h : e.Modest) (pid : PathId) (chunk : Bytes) (now : Nat) (s : Entropy) :
    (e.onChunk pid chunk now s).2.1.Modest := by
  unfold Election.onChunk
  rw [Watched.addChunk_eq]
  rcases Engine.addChunk pid chunk e.engine.engine with ⟨fault | _, engine⟩
  · exact h.note rfl engine
  · exact (h.note (a := .fed pid (.ok ())) rfl engine).drain pid now _ s

theorem Modest.onDeadline (h : e.Modest) (live : List PathId) : (e.onDeadline live).2.Modest := by
  unfold Election.onDeadline
  have picks := Shortlist.picks_expire live e.shortlist
  have emptied := Shortlist.candidates_expire live e.shortlist
  rcases expired : e.shortlist.expire live with ⟨_ | chosen, shortlist⟩
  · rw [expired] at picks emptied
    have requested : shortlist.requested = e.shortlist.requested := picks
    refine ⟨by rw [requested]; exact h.once, fun asked => h.entitled (.inr ?_), h.current⟩
    rw [← requested]
    exact asked.resolve_left fun hc => hc emptied
  · rw [expired] at picks
    exact h.nominate picks (h.entitled (.inl (Shortlist.candidates_of_expire expired)))

theorem Modest.start (h : e.Modest) (now : Nat) (s : Entropy) : (e.start now s).2.1.Modest := by
  unfold Election.start
  rw [Watched.initialFrames_eq]
  split_ifs
  · exact h
  · rcases Engine.initialFrames now e.engine.engine s with ⟨fault | frames, engine, s⟩
    · exact h.note rfl engine
    · exact (h.note (a := .started (.ok frames)) rfl engine).phase .nominating

theorem Modest.handle (h : e.Modest) (event : Event) (now : Nat) (s : Entropy) :
    (e.handle event now s).2.1.Modest := by
  unfold Election.handle
  by_cases hp : e.phase = .nominating
  · rw [if_neg (not_not.2 hp)]
    cases event with
    | frame pid chunk =>
      have kept := h.onChunk pid chunk now s
      revert kept
      dsimp only
      rcases e.onChunk pid chunk now s with ⟨failure | actions, e, s⟩
      · exact fun kept => kept.phase .aborted
      · exact id
    | deadline live =>
      have kept := h.onDeadline live
      revert kept
      dsimp only
      rcases e.onDeadline live with ⟨failure | actions, e⟩
      · exact fun kept => kept.phase .aborted
      · exact id
  · rw [if_pos hp]
    exact h

theorem Modest.call (h : e.Modest) (c : Call) : (e.call c).2.Modest := by
  cases c with
  | start now s => exact h.start now s
  | handle event now s => exact h.handle event now s

theorem Modest.life (h : e.Modest) (cs : List Call) : (life cs e).2.Modest := by
  induction cs generalizing e with
  | nil => exact h
  | cons c cs ih => exact ih (h.call c)

theorem modest_new (engine : E) (policy : Policy) : (new (Watched.new engine) policy).Modest :=
  ⟨.inl rfl, by simp [new, Shortlist.new], List.mem_singleton_self engine⟩

/-! ### Outcomes of a call -/

/-- While a call succeeds: the frames sent are those the engine has answered, and the election is open,
or over with the nominated path named in the last action. -/
structure Went (e e' : Election (Watched E)) (actions : List Action) : Prop where
  frames : ∃ asked, e'.engine.log = e.engine.log ++ asked ∧
    sends actions = asked.flatMap Asked.frames
  closing : (e'.phase = .nominating ∧ winners actions = []) ∨
    (e'.phase = .nominated ∧ ∃ before pid hash, actions = before ++ [.nominated pid hash] ∧
      winners before = [] ∧ Engine.nominatedPath e'.engine = some pid)

theorem went_refl (hp : e.phase = .nominating) : Went e e [] := ⟨⟨[], by simp, rfl⟩, .inl ⟨hp, rfl⟩⟩

theorem Went.noted {a : Asked} {engine : E} {first more : List Action}
    (h : Went { e with engine := e.engine.note a engine } e' more) (frames : sends first = a.frames)
    (quiet : winners first = []) : Went e e' (first ++ more) where
  frames := by
    obtain ⟨asked, log, sent⟩ := h.frames
    refine ⟨a :: asked, ?_, by simp [frames, sent]⟩
    rw [log, Watched.note, List.append_assoc]
    rfl
  closing := by
    rcases h.closing with ⟨hp, none⟩ | ⟨hp, before, pid, hash, rfl, none, hn⟩
    · exact .inl ⟨hp, by simp [quiet, none]⟩
    · exact .inr ⟨hp, first ++ before, pid, hash, by simp, by simp [quiet, none], hn⟩

theorem Went.trans {e₁ : Election (Watched E)} {first more : List Action} (h : Went e e₁ first)
    (hp : e₁.phase = .nominating) (k : Went e₁ e' more) : Went e e' (first ++ more) where
  frames := by
    obtain ⟨asked, log, sent⟩ := h.frames
    obtain ⟨asked', log', sent'⟩ := k.frames
    exact ⟨asked ++ asked', by rw [log', log, List.append_assoc], by simp [sent, sent']⟩
  closing := by
    have quiet : winners first = [] := by
      rcases h.closing with ⟨-, none⟩ | ⟨ended, -⟩
      · exact none
      · rw [hp] at ended; cases ended
    rcases k.closing with ⟨hp, none⟩ | ⟨hp, before, pid, hash, rfl, none, hn⟩
    · exact .inl ⟨hp, by simp [quiet, none]⟩
    · exact .inr ⟨hp, first ++ before, pid, hash, by simp, by simp [quiet, none], hn⟩

theorem went_accept {o : Outcome} {actions : List Action}
    {onReady : Nat → Election (Watched E) → Except Failure (List Action) × Election (Watched E)}
    (hp : e.phase = .nominating)
    (ready : ∀ rtt more e', onReady rtt e = (.ok more, e') → Went e e' more)
    (h : e.accept pid o onReady = (.ok actions, e')) :
    ∃ more, actions = o.out.toList.map (Action.send pid) ++ more ∧ Went e e' more := by
  rcases accept_cases h with ⟨-, rfl, rfl⟩ | ⟨rtt, more, -, hr, rfl⟩ | ⟨hash, -, hn, rfl, rfl⟩
  · exact ⟨[], by simp, went_refl hp⟩
  · exact ⟨more, rfl, ready rtt more e' hr⟩
  · exact ⟨_, rfl, ⟨⟨[], by simp, rfl⟩, .inr ⟨rfl, [], pid, hash, rfl, rfl, hn⟩⟩⟩

theorem went_nominate {actions : List Action} (hp : e.phase = .nominating)
    (h : e.nominate pid = (.ok actions, e')) : Went e e' actions := by
  unfold nominate at h
  rw [Watched.nominate_eq] at h
  revert h
  rcases Engine.nominate pid e.engine.engine with ⟨fault | o, engine⟩
  · intro h; simp at h
  · intro h
    have accepted := went_accept (e := { e with engine := e.engine.note (.nominated pid (.ok o)) engine })
      hp (fun rtt more e' hr => ?_) h
    · obtain ⟨more, rfl, went⟩ := accepted
      exact went.noted (sends_map_send pid _) (winners_map_send pid _)
    · obtain ⟨rfl, rfl⟩ : [] = more ∧ _ = e' := by simpa using hr
      exact went_refl hp

theorem went_onReady {now rtt : Nat} {actions : List Action} (hp : e.phase = .nominating)
    (h : e.onReady pid now rtt = (.ok actions, e')) : Went e e' actions := by
  unfold onReady at h
  by_cases hn : Engine.isNominator e.engine = true
  · rw [if_neg (not_not.2 hn)] at h
    rcases hs : e.shortlist.onReady pid rtt now with ⟨_ | chosen, shortlist⟩
    · rw [hs] at h
      obtain ⟨rfl, rfl⟩ : [] = actions ∧ _ = e' := by simpa using h
      exact ⟨⟨[], by simp, rfl⟩, .inl ⟨hp, rfl⟩⟩
    · rw [hs] at h
      have went := went_nominate (e := { e with shortlist }) hp h
      exact ⟨went.frames, went.closing⟩
  · obtain ⟨rfl, rfl⟩ : [] = actions ∧ e = e' := by simpa [hn] using h
    exact went_refl hp

theorem asked_of_processFrame {now : Nat} {w w' : Watched E} {s s' : Entropy}
    {answer : Except EngineFault (Option Outcome)}
    (h : Engine.processFrame pid now w s = (answer, w', s')) :
    ∃ engine, w' = w.note (.processed pid answer) engine := by
  rw [Watched.processFrame_eq] at h
  obtain ⟨rfl, rest⟩ := Prod.mk.inj h
  exact ⟨_, (Prod.mk.inj rest).1.symm⟩

theorem went_drain {now n : Nat} {s s' : Entropy} {actions : List Action}
    (hp : e.phase = .nominating) (h : drain pid now n e s = (.ok actions, e', s')) :
    Went e e' actions := by
  induction n generalizing e s actions with
  | zero =>
    obtain ⟨rfl, rfl, -⟩ : [] = actions ∧ e = e' ∧ _ := by simpa [drain] using h
    exact went_refl hp
  | succ n ih =>
    rcases drain_cases hp h with ⟨engine, hf, rfl, rfl⟩ | ⟨o, engine, s₁, first, e₁, more, hf, ha, hd, rfl⟩
    · obtain ⟨engine, rfl⟩ := asked_of_processFrame hf
      have went : Went { e with engine := e.engine.note (.processed pid (.ok none)) engine } _ [] :=
        went_refl hp
      exact went.noted (sends_map_send pid []) rfl
    · obtain ⟨engine, rfl⟩ := asked_of_processFrame hf
      obtain ⟨own, rfl, went⟩ := went_accept
        (e := { e with engine := e.engine.note (.processed pid (.ok (some o))) engine }) hp
        (fun rtt more e' hr => went_onReady hp hr) ha
      have went := went.noted (sends_map_send pid o.out.toList) (winners_map_send pid _)
      rcases went.closing with ⟨still, -⟩ | ⟨ended, -⟩
      · exact went.trans still (ih still hd)
      · -- a winner among the first actions leaves nothing for the frames after them
        rw [drain_of_over (by simp [ended])] at hd
        obtain ⟨rfl, rfl, -⟩ : [] = more ∧ e₁ = e' ∧ _ := by simpa using hd
        rw [List.append_nil]
        exact went

theorem went_onChunk {chunk : Bytes} {now : Nat} {s s' : Entropy} {actions : List Action}
    (hp : e.phase = .nominating) (h : e.onChunk pid chunk now s = (.ok actions, e', s')) :
    Went e e' actions := by
  unfold onChunk at h
  rw [Watched.addChunk_eq] at h
  revert h
  rcases Engine.addChunk pid chunk e.engine.engine with ⟨fault | _, engine⟩
  · intro h; simp at h
  · intro h
    have went := went_drain (e := { e with engine := e.engine.note (.fed pid (.ok ())) engine }) hp h
    exact went.noted (sends_map_send pid []) rfl

theorem went_onDeadline {live : List PathId} {actions : List Action} (hp : e.phase = .nominating)
    (h : e.onDeadline live = (.ok actions, e')) : Went e e' actions := by
  unfold onDeadline at h
  rcases hs : e.shortlist.expire live with ⟨_ | chosen, shortlist⟩
  · rw [hs] at h
    obtain ⟨rfl, rfl⟩ : [] = actions ∧ _ = e' := by simpa using h
    exact ⟨⟨[], by simp, rfl⟩, .inl ⟨hp, rfl⟩⟩
  · rw [hs] at h
    have went := went_nominate (e := { e with shortlist }) hp h
    exact ⟨went.frames, went.closing⟩

/-! ### Calls -/

/-- The possible results of a call: nothing changes, a failure, the first frames, or the engine's
answers to an event. -/
inductive Comes (e : Election (Watched E)) :
    Except Failure (List Action) → Election (Watched E) → Prop
  | refused (failure : Failure) : Comes e (.error failure) e
  | unstarted {failure : Failure} {engine : Watched E} (hp : e.phase = .initializing) :
      Comes e (.error failure) { e with engine }
  | aborted {failure : Failure} {e₁ : Election (Watched E)} (hp : e.phase = .nominating) :
      Comes e (.error failure) { e₁ with phase := .aborted }
  | started {frames : List (PathId × Bytes)} {engine : E} (hp : e.phase = .initializing) :
      Comes e (.ok (frames.map fun (pid, frame) => .send pid frame))
        { e with engine := e.engine.note (.started (.ok frames)) engine, phase := .nominating }
  | went {actions : List Action} {e' : Election (Watched E)} (hp : e.phase = .nominating)
      (went : Went e e' actions) : Comes e (.ok actions) e'

theorem comes_start (e : Election (Watched E)) (now : Nat) (s : Entropy) :
    Comes e (e.start now s).1 (e.start now s).2.1 := by
  unfold start
  rw [Watched.initialFrames_eq]
  by_cases hp : e.phase = .initializing
  · rw [if_neg (not_not.2 hp)]
    rcases Engine.initialFrames now e.engine.engine s with ⟨fault | frames, engine, s⟩
    · exact .unstarted hp
    · exact .started hp
  · rw [if_pos hp]
    exact .refused _

theorem comes_handle (e : Election (Watched E)) (event : Event) (now : Nat) (s : Entropy) :
    Comes e (e.handle event now s).1 (e.handle event now s).2.1 := by
  unfold handle
  by_cases hp : e.phase = .nominating
  · rw [if_neg (not_not.2 hp)]
    cases event with
    | frame pid chunk =>
      dsimp only
      rcases hc : e.onChunk pid chunk now s with ⟨failure | actions, e', s'⟩
      · exact .aborted hp
      · exact .went hp (went_onChunk hp hc)
    | deadline live =>
      dsimp only
      rcases hd : e.onDeadline live with ⟨failure | actions, e'⟩
      · exact .aborted hp
      · exact .went hp (went_onDeadline hp hd)
  · rw [if_pos hp]
    exact .refused _

theorem comes_call (e : Election (Watched E)) (c : Call) : Comes e (e.call c).1 (e.call c).2 := by
  cases c with
  | start now s => exact comes_start e now s
  | handle event now s => exact comes_handle e event now s

/-- The order of the phases. -/
inductive Later : Phase → Phase → Prop
  | same (p : Phase) : Later p p
  | opened : Later .initializing .nominating
  | won : Later .nominating .nominated
  | lost : Later .nominating .aborted

variable {answer : Except Failure (List Action)}

theorem Comes.later (h : Comes e answer e') : Later e.phase e'.phase := by
  cases h with
  | refused => exact .same _
  | unstarted => exact .same _
  | aborted hp => rw [hp]; exact .lost
  | started hp => rw [hp]; exact .opened
  | went hp went =>
    rw [hp]
    rcases went.closing with ⟨still, -⟩ | ⟨ended, -⟩
    · rw [still]; exact .same _
    · rw [ended]; exact .won

def isOver (e : Election E) : Prop := e.phase = .nominated ∨ e.phase = .aborted

theorem Comes.of_over (h : Comes e answer e') (ended : e.isOver) :
    (∃ failure, answer = .error failure) ∧ e' = e := by
  have never {p : Phase} (hp : e.phase = p) (other : p = .initializing ∨ p = .nominating) : False := by
    rcases ended with ended | ended <;> rcases other with rfl | rfl <;> rw [hp] at ended <;> cases ended
  cases h with
  | refused failure => exact ⟨⟨failure, rfl⟩, rfl⟩
  | unstarted hp | started hp => exact (never hp (.inl rfl)).elim
  | aborted hp | went hp => exact (never hp (.inr rfl)).elim

def actionsOf : Except Failure (List Action) → List Action
  | .ok actions => actions
  | .error _ => []

/-- The call that nominates is the only one that announces a winner, in its last action. -/
theorem Comes.wins (h : Comes e answer e') :
    (winners (actionsOf answer) ≠ [] ↔ e.phase = .nominating ∧ e'.phase = .nominated) ∧
    (winners (actionsOf answer) ≠ [] → ∃ before pid hash,
      answer = .ok (before ++ [.nominated pid hash]) ∧ winners before = [] ∧
        Engine.nominatedPath e'.engine = some pid) := by
  cases h with
  | refused | unstarted | aborted => simp_all [actionsOf]
  | started hp =>
    have quiet (frames : List (PathId × Bytes)) :
        winners (frames.map fun (pid, frame) => .send pid frame) = [] := by
      simp [winners, List.filterMap_map, Function.comp_def, Action.winner?]
    simp [actionsOf, quiet]
  | went hp went =>
    rcases went.closing with ⟨still, none⟩ | ⟨ended, before, pid, hash, rfl, none, hn⟩
    · simp [actionsOf, none, still]
    · exact ⟨by simp [actionsOf, hp, ended], fun _ => ⟨before, pid, hash, rfl, none, hn⟩⟩

theorem sends_map_frames (frames : List (PathId × Bytes)) :
    sends (frames.map fun (pid, frame) => .send pid frame) = frames := by
  induction frames with
  | nil => rfl
  | cons frame rest ih => simpa [sends, Action.sent?] using ih

theorem Comes.frames {actions : List Action} (h : Comes e (.ok actions) e') :
    ∃ asked, e'.engine.log = e.engine.log ++ asked ∧
      sends actions = asked.flatMap Asked.frames := by
  cases h with
  | @started frames engine hp =>
    exact ⟨[.started (.ok frames)], rfl, by simp [sends_map_frames, Asked.frames]⟩
  | went hp went => exact went.frames

/-! ### Whole lives -/

theorem life_of_over (ended : e.isOver) (cs : List Call) :
    (life cs e).1.flatMap actionsOf = [] := by
  induction cs with
  | nil => rfl
  | cons c cs ih =>
    obtain ⟨⟨failure, failed⟩, same⟩ := (comes_call e c).of_over ended
    simp only [life, same, List.flatMap_cons, ih, failed, actionsOf, List.append_nil]

theorem winners_life (cs : List Call) (e : Election (Watched E)) :
    (winners ((life cs e).1.flatMap actionsOf)).length ≤ 1 := by
  induction cs generalizing e with
  | nil => exact Nat.zero_le _
  | cons c cs ih =>
    have comes := comes_call e c
    have split : (life (c :: cs) e).1.flatMap actionsOf =
        actionsOf (e.call c).1 ++ (life cs (e.call c).2).1.flatMap actionsOf := rfl
    rw [split, winners_append]
    by_cases hw : winners (actionsOf (e.call c).1) = []
    · rw [hw, List.nil_append]
      exact ih (e.call c).2
    · -- nothing comes after a winner
      obtain ⟨-, ended⟩ := comes.wins.1.1 hw
      obtain ⟨before, pid, hash, answer, none, -⟩ := comes.wins.2 hw
      rw [life_of_over (.inl ended), answer]
      simp [actionsOf, none]

theorem frames_life (cs : List Call) (e : Election (Watched E))
    (fine : ∀ answer ∈ (life cs e).1, ∃ actions, answer = .ok actions) :
    ∃ asked, (life cs e).2.engine.log = e.engine.log ++ asked ∧
      sends ((life cs e).1.flatMap actionsOf) = asked.flatMap Asked.frames := by
  induction cs generalizing e with
  | nil => exact ⟨[], by simp [life], rfl⟩
  | cons c cs ih =>
    obtain ⟨actions, first⟩ := fine (e.call c).1 List.mem_cons_self
    have comes := comes_call e c
    rw [first] at comes
    obtain ⟨asked, log, sent⟩ := comes.frames
    obtain ⟨asked', log', sent'⟩ := ih (e.call c).2 fun answer hm =>
      fine answer (List.mem_cons_of_mem _ hm)
    refine ⟨asked ++ asked', ?_, ?_⟩
    · rw [← List.append_assoc, ← log]
      exact log'
    · have split : (life (c :: cs) e).1.flatMap actionsOf =
          actionsOf (e.call c).1 ++ (life cs (e.call c).2).1.flatMap actionsOf := rfl
      rw [split, sends_append, sent', first, List.flatMap_append, ← sent]
      rfl

/-- For any engine and any calls: the engine is asked for at most one nomination, and for none if it is
never the nominator. At most one winner is announced, by the last action of the call that ends the
election, and it is the path nominated in the engine. The phases only advance, and once the election is
over the engine is not called any more. As long as no call fails, the frames sent are those of the
engine, in order and on their paths. Watching the engine changes none of this. -/
theorem winner_takes_all (engine : E) (policy : Policy) (cs : List Call) :
    let answers := (life cs (new (Watched.new engine) policy)).1
    let e := (life cs (new (Watched.new engine) policy)).2
    life cs (new engine policy) = (answers, e.unwatched) ∧
    e.engine.nominations.length ≤ 1 ∧
    ((∀ a ∈ e.engine.seen, Engine.isNominator a = false) → e.engine.nominations = []) ∧
    (winners (answers.flatMap actionsOf)).length ≤ 1 ∧
    ((∀ answer ∈ answers, ∃ actions, answer = .ok actions) →
      sends (answers.flatMap actionsOf) = e.engine.log.flatMap Asked.frames) ∧
    ∀ c, let answer := (e.call c).1
      let e' := (e.call c).2
      Later e.phase e'.phase ∧
      (e.isOver → (∃ failure, answer = .error failure) ∧ e' = e) ∧
      (winners (actionsOf answer) ≠ [] ↔ e.phase = .nominating ∧ e'.phase = .nominated) ∧
      (winners (actionsOf answer) ≠ [] → ∃ before pid hash,
        answer = .ok (before ++ [.nominated pid hash]) ∧ winners before = [] ∧
          Engine.nominatedPath e'.engine = some pid) := by
  intro answers e
  have modest := (modest_new engine policy).life cs
  have winners := winners_life cs (new (Watched.new engine) policy)
  have frames := frames_life cs (new (Watched.new engine) policy)
  refine ⟨life_unwatched cs (new (Watched.new engine) policy), ?_, fun never => ?_, winners,
    fun fine => ?_, fun c => ?_⟩
  · rcases modest.once with nothing | ⟨one, -⟩
    · exact (congrArg List.length nothing).trans_le (Nat.zero_le 1)
    · exact one.le
  · refine modest.once.resolve_right fun ⟨_, requested⟩ => ?_
    obtain ⟨a, ha, nominator⟩ := modest.entitled (.inr requested)
    rw [never a ha] at nominator
    cases nominator
  · obtain ⟨asked, log, sent⟩ := frames fine
    rw [sent, log]
    rfl
  · have comes := comes_call (life cs (new (Watched.new engine) policy)).2 c
    exact ⟨comes.later, comes.of_over, comes.wins⟩

/-- An engine whose only path is ready with its first chunk. -/
def eagerScript : Script where
  isNominator := true
  frames := .ok [(7, [1])]
  rules := [⟨none, none, none, [.plain ⟨some (.ready 0), some [2], none⟩]⟩]
  nominations := []
  creation := none
  queue := []
  nominated := none
  calls := []

def eagerCalls : List Call := [.start 0 (.cycle []), .handle (.frame 7 [3]) 0 (.cycle [])]

theorem winner_takes_all_eager :
    let answers := (life eagerCalls (new (Watched.new eagerScript) .eager)).1
    let e := (life eagerCalls (new (Watched.new eagerScript) .eager)).2
    sends (answers.flatMap actionsOf) = [(7, [1]), (7, [2])] ∧
      e.isOver ∧ (e.call (.start 0 (.cycle []))).2 = e ∧
    let e := (life [.start 0 (.cycle [])] (new (Watched.new eagerScript) .eager)).2
    ∃ before pid hash, (e.call (.handle (.frame 7 [3]) 0 (.cycle []))).1 =
      .ok (before ++ [.nominated pid hash]) ∧ winners before = [] := by
  obtain ⟨-, -, -, -, sent, after⟩ := winner_takes_all eagerScript .eager eagerCalls
  obtain ⟨-, -, -, -, -, next⟩ := winner_takes_all eagerScript .eager [.start 0 (.cycle [])]
  have ended : isOver (life eagerCalls (new (Watched.new eagerScript) .eager)).2 := .inl (by cbv)
  obtain ⟨before, pid, hash, answer, none, -⟩ :=
    (next (.handle (.frame 7 [3]) 0 (.cycle []))).2.2.2 (by decide +kernel)
  have fine : ∀ answer ∈ (life eagerCalls (new (Watched.new eagerScript) .eager)).1,
      ∃ actions, answer = .ok actions := by
    have all : (life eagerCalls (new (Watched.new eagerScript) .eager)).1 =
        [.ok [.send 7 [1]], .ok [.send 7 [2], .nominated 7 (Octets.zero 32)]] := by rfl
    rw [all]
    simp
  exact ⟨(sent fine).trans (by rfl), ended, ((after _).2.1 ended).2, before, pid, hash, answer, none⟩

end Election

end PathRace
