import Mathlib
import PathRace.Proofs.Race.Table
import PathRace.Proofs.Session.Attempt
import PathRace.Proofs.Session.Rejection
import PathRace.Script

/-! The failure an attempt returns and the cause its signal records. If no other task runs between two
steps that the session makes without waiting (`isUndivided`), every failure except one is that of the
recorded cause (`raised_of_failed`). The exception is an attempt that finds its signal closed: its
failure is `closed`, whose own cause is `cancelled` (`closed_plainAttempt`). -/

namespace PathRace

namespace Failure

/-- The cause that is raised when an attempt fails. -/
def origin : Failure → Cause
  | closed => .closed
  | failure => failure.cause

theorem origin_of_ne {failure : Failure} (h : failure ≠ closed) : failure.origin = failure.cause := by
  cases failure <;> first | rfl | exact absurd rfl h

theorem ne_closed_of_isRejection {failure : Failure} (h : failure.isRejection = true) :
    failure ≠ closed := by
  rintro rfl
  cases h

theorem origin_ofCause (cause : Cause) : (ofCause cause).origin = cause := by
  cases cause <;> rfl

end Failure

/-! ### An election rejects, or asks for more -/

namespace Election

/-- If there is a failure, it comes from the engine. -/
def Blames {α : Type} (answer : Except Failure α) : Prop :=
  ∀ failure, answer = .error failure → failure.isRejection = true

theorem blames_ok {α : Type} (a : α) : Blames (.ok a) := nofun

theorem blames_error {α : Type} {failure : Failure} (h : failure.isRejection = true) :
    Blames (.error failure : Except Failure α) := by
  rintro _ ⟨⟩
  exact h

theorem Blames.map {α β : Type} {answer : Except Failure α} (h : Blames answer) (f : α → β) :
    Blames (answer.map f) := by
  cases answer with
  | error failure => exact blames_error (h failure rfl)
  | ok a => exact blames_ok _

variable {E : Type} [Engine E] {e : Election E} {pid : PathId} {now : Nat} {s : Entropy}

theorem blames_accept {o : Outcome}
    {onReady : Nat → Election E → Except Failure (List Action) × Election E}
    (ready : ∀ rtt, Blames (onReady rtt e).1) : Blames (e.accept pid o onReady).1 := by
  unfold accept
  split
  · exact blames_error rfl
  · dsimp only
    split
    · exact blames_ok _
    · exact (ready _).map _
    · split
      · exact blames_error rfl
      · exact blames_ok _

theorem blames_nominate : Blames (e.nominate pid).1 := by
  unfold nominate
  split
  · exact blames_error rfl
  · exact blames_accept fun _ => blames_ok _

theorem blames_onReady {rtt : Nat} : Blames (e.onReady pid now rtt).1 := by
  unfold onReady
  split
  · exact blames_ok _
  · split
    · exact blames_ok _
    · exact blames_nominate

theorem blames_drain (n : Nat) : Blames (drain pid now n e s).1 := by
  induction n generalizing e s with
  | zero => exact blames_ok _
  | succ n ih =>
    unfold drain
    split_ifs
    · exact blames_ok _
    · split
      · exact blames_error rfl
      · exact blames_ok _
      · rename_i o engine s' _
        have accepted : Blames (({ e with engine }).accept pid o (onReady pid now)).1 :=
          blames_accept fun _ => blames_onReady
        split <;> rename_i answer <;> rw [answer] at accepted
        · exact accepted
        · exact ih.map _

theorem blames_onChunk {chunk : Bytes} : Blames (e.onChunk pid chunk now s).1 := by
  unfold onChunk
  split
  · exact blames_error rfl
  · exact blames_drain _

theorem blames_onDeadline {live : List PathId} : Blames (e.onDeadline live).1 := by
  unfold onDeadline
  split
  · exact blames_ok _
  · exact blames_nominate

theorem blames_handle {event : Event} : Blames (e.handle event now s).1 := by
  unfold handle
  split_ifs
  · exact blames_error rfl
  · cases event with
    | frame pid chunk =>
      have chunked : Blames (e.onChunk pid chunk now s).1 := blames_onChunk
      dsimp only
      rcases answer : e.onChunk pid chunk now s with ⟨failure | actions, e', s'⟩
      · rw [answer] at chunked
        exact chunked
      · exact blames_ok _
    | deadline live =>
      have expired : Blames (e.onDeadline live).1 := blames_onDeadline
      dsimp only
      rcases answer : e.onDeadline live with ⟨failure | actions, e'⟩
      · rw [answer] at expired
        exact expired
      · exact blames_ok _

theorem blames_start : Blames (e.start now s).1 := by
  unfold start
  split_ifs
  · exact blames_error rfl
  · split
    · exact blames_error rfl
    · exact blames_ok _

end Election

/-! ### A race and its signal -/

namespace Race

variable {r : Race} {pid : PathId} {failure : Failure}

/-- While a session takes its steps the signal is quiet, or the last path has just left. -/
def Calm (r : Race) : Prop :=
  r.signal.cause = none ∨ r.ownership = .released ∧ r.signal.cause = some .noPathsRemaining

theorem calm_failWrite (h : Tabled r) (quiet : r.signal.cause = none) (racing : r.isRacing = true) :
    (r.failWrite pid).Calm := by
  have undecided := h.undecided racing
  have pruned := pruned_prune pid true { r with writers := r.writers.erase pid }
  unfold failWrite
  generalize prune pid true { r with writers := r.writers.erase pid } = r' at pruned
  cases pruned with
  | spared | absent => exact .inl quiet
  | last => exact .inr ⟨rfl, Signal.cause_raise_of_none quiet _⟩
  | winner table => exact absurd table (undecided _ _)

theorem isRacing_failWrite (racing : r.isRacing = true) : (r.failWrite pid).isRacing = true := by
  have consumer := (prune_keeps pid true { r with writers := r.writers.erase pid }).2.2.2
  simpa only [isRacing, failWrite, consumer] using racing

theorem accords_openWrite (h : (r.openWrite pid).1 = .refused failure) :
    (r.openWrite pid).2 = r ∧ r.signal.cause = some failure.origin := by
  unfold openWrite at h ⊢
  cases raised : r.signal.cause with
  | some cause =>
    rw [raised] at h
    cases h
    exact ⟨rfl, by rw [Failure.origin_ofCause]⟩
  | none =>
    rw [raised] at h
    dsimp only at h
    split_ifs at h

theorem refused_of_enter {pids : List PathId} (h : (r.enter pids).1 = .error failure) :
    ∃ why, failure = .config why := by
  unfold enter at h
  split_ifs at h
  · cases h
    exact ⟨_, rfl⟩
  · split at h
    · cases h
      exact ⟨_, rfl⟩
    · cases h

theorem accords_nominate (h : Tabled r) (calm : r.Calm) (racing : r.isRacing = true)
    (lost : (r.nominate pid).1 = .error failure) :
    (r.nominate pid).2.signal.cause = some failure.origin := by
  rcases nominate_cases pid r with ⟨pids, -, -, -, he⟩ | ⟨pids, table, -, he⟩ | ⟨decided, he⟩
  · rw [he] at lost
    cases lost
  · rw [he] at lost ⊢
    cases lost
    have quiet : r.signal.cause = none := calm.resolve_right fun done => by
      rw [table] at done
      cases done.1
    have raised : ((r.decided pid pids).raise (.pathFailed pid)).signal.cause =
        some (.pathFailed pid) := Signal.cause_raise_of_none quiet _
    exact (sameTable_abandon _).signal.cause raised
  · rw [he] at lost ⊢
    cases lost
    have raised : r.signal.cause = some .noPathsRemaining := by
      rcases calm with quiet | done
      · cases table : r.ownership with
        | racing pids => exact absurd table (decided pids)
        | nominated w held => exact absurd table (h.undecided racing w held)
        | released =>
          have settled := h.settled table
          rw [quiet] at settled
          cases settled
      · exact done.2
    rw [raised]
    exact (sameTable_abandon r).signal.cause raised

theorem heard_eq_cause (h : Tabled r) : r.signal.heard = r.signal.cause := by
  unfold Signal.heard
  rw [h.heard]
  cases r.signal.cause <;> rfl

theorem accords_receive (h : Tabled r) (lost : r.receive.1 = some (.error failure)) :
    r.signal.cause = none ∧ failure = .noPathsRemaining ∨ r.signal.cause = some failure.origin := by
  unfold receive at lost
  rw [heard_eq_cause h] at lost
  cases raised : r.signal.cause with
  | none =>
    rw [raised] at lost
    dsimp only at lost
    split at lost
    · split_ifs at lost
      cases lost
    · split_ifs at lost
      cases lost
      exact .inl ⟨rfl, rfl⟩
  | some cause =>
    rw [raised] at lost
    cases lost
    exact .inr (by rw [Failure.origin_ofCause])

theorem quiet_of_receive (h : Tabled r) (more : ∀ failure, r.receive.1 ≠ some (.error failure)) :
    r.signal.cause = none := by
  have heard := heard_eq_cause h
  cases raised : r.signal.cause with
  | none => rfl
  | some cause =>
    refine absurd ?_ (more (.ofCause cause))
    unfold receive
    rw [heard, raised]

end Race

namespace Session

variable {E : Type} {x : Session E}

def isActing (x : Session E) : Bool :=
  match x.state with
  | .racing _ (.acting ..) => true
  | _ => false

/-- The session is still going on, or its failure fits the cause that has been raised. -/
inductive Agreed : Session E → Prop
  | acting {race : Race} {election : Election E} {todo : List Action}
      {winner : Option (PathId × PathHash)} (tabled : race.Tabled) (on : race.isRacing = true)
      (calm : race.Calm) : Agreed ⟨race, .racing election (.acting todo winner)⟩
  | writing {race : Race} {election : Election E} {pid : PathId} {write : Writing} {todo : List Action}
      {winner : Option (PathId × PathHash)} (tabled : race.Tabled) (on : race.isRacing = true) :
      Agreed ⟨race, .racing election (.writing pid write todo winner)⟩
  | listening {race : Race} {election : Election E} (tabled : race.Tabled)
      (on : race.isRacing = true) : Agreed ⟨race, .racing election .listening⟩
  | connected {race : Race} {engine : E} {pid : PathId} {hash : PathHash} :
      Agreed ⟨race, .connected engine pid hash⟩
  | failed {race : Race} {failure : Failure} {engine : Option E}
      (accords : race.signal.cause = some failure.origin) : Agreed ⟨race, .failed failure engine⟩

theorem agreed_fail {failure : Failure}
    (h : x.race.signal.cause = none ∧ failure ≠ .closed ∨ x.race.signal.cause = some failure.origin)
    (engine : Option E) : Agreed (x.fail failure engine) := by
  have raised : (x.race.raise failure.cause).signal.cause = some failure.origin := by
    rcases h with ⟨quiet, other⟩ | accords
    · rw [Failure.origin_of_ne other]
      exact Signal.cause_raise_of_none quiet _
    · exact (Signal.Later.raised _ _).cause accords
  exact .failed ((Race.sameTable_abandon _).signal.cause raised)

theorem agreed_perform {election : Election E} {result : Except Failure (List Action)}
    (tabled : x.race.Tabled) (racing : x.race.isRacing = true) (quiet : x.race.signal.cause = none)
    (blames : Election.Blames result) : Agreed (x.perform result election) := by
  cases result with
  | error failure =>
    have other := Failure.ne_closed_of_isRejection (blames failure rfl)
    exact agreed_fail (.inl ⟨quiet, other⟩) _
  | ok todo => exact .acting tabled racing (.inl quiet)

theorem agreed_act {election : Election E} {todo : List Action} {winner : Option (PathId × PathHash)}
    (tabled : x.race.Tabled) (racing : x.race.isRacing = true) (calm : x.race.Calm) :
    Agreed (x.act election todo winner) := by
  cases todo with
  | nil =>
    cases winner with
    | none => exact .listening tabled racing
    | some w =>
      have accords (failure : Failure) (lost : (x.race.nominate w.1).1 = .error failure) :=
        Race.accords_nominate tabled calm racing lost
      simp only [act]
      rcases answer : x.race.nominate w.1 with ⟨failure | ⟨⟩, race⟩
      · rw [answer] at accords
        exact agreed_fail (x := { x with race }) (.inr (accords failure rfl)) _
      · exact .connected
  | cons action rest =>
    cases action with
    | nominated pid hash => exact .acting tabled racing calm
    | send pid frame =>
      have tabled' := Race.tabled_openWrite tabled pid
      have accords (failure : Failure) (lost : (x.race.openWrite pid).1 = .refused failure) :=
        Race.accords_openWrite lost
      obtain ⟨writers, kept⟩ := Race.openWrite_keeps pid x.race
      simp only [act]
      rcases answer : x.race.openWrite pid with ⟨failure | - | -, race⟩ <;>
        rw [answer] at tabled' accords kept
      · obtain ⟨rfl, told⟩ := accords failure rfl
        exact agreed_fail (.inr told) _
      · dsimp only at kept tabled'
        subst kept
        exact .acting tabled' racing calm
      · dsimp only at kept tabled'
        subst kept
        exact .writing tabled' racing

theorem agreed_wrote {election : Election E} {pid : PathId} {progress : Progress} {todo : List Action}
    {winner : Option (PathId × PathHash)} (tabled : x.race.Tabled) (racing : x.race.isRacing = true)
    (quiet : x.race.signal.cause = none) :
    Agreed (x.wrote election pid progress todo winner) := by
  rcases progress with (fault | -) | write
  · have tabled := Race.tabled_after tabled (.failWrite pid)
    rw [Race.after, if_pos racing] at tabled
    exact .acting tabled (Race.isRacing_failWrite racing) (Race.calm_failWrite ‹_› quiet racing)
  · exact .acting tabled racing (.inl quiet)
  · exact .writing tabled racing

theorem agreed_interrupt {election : Election E} (tabled : x.race.Tabled) (h : Agreed x) :
    Agreed (x.interrupt election) := by
  unfold interrupt
  rw [Race.heard_eq_cause tabled]
  split
  · exact h
  · refine agreed_fail (.inr ?_) _
    rw [Failure.origin_ofCause]
    assumption

theorem Agreed.onRace (h : Agreed x) (waits : x.isActing = false) {m : Race.Move}
    (racing : x.race.isRacing = true → (x.race.after m).isRacing = true) :
    Agreed { x with race := x.race.after m } := by
  cases h with
  | acting => cases waits
  | writing tabled on => exact .writing (Race.tabled_after tabled m) (racing on)
  | listening tabled on => exact .listening (Race.tabled_after tabled m) (racing on)
  | connected => exact .connected
  | failed accords => exact .failed ((Race.later_after m _).cause accords)

variable [Engine E]

theorem agreed_listen {election : Election E} {now : Nat} {s : Entropy} (tabled : x.race.Tabled)
    (racing : x.race.isRacing = true) (listens : x.state = .racing election .listening) :
    Agreed (x.listen election now s).1 := by
  have tabled' := Race.tabled_after tabled .receive
  rw [Race.after, if_pos racing] at tabled'
  have signal := Race.signal_receive x.race
  have told (failure : Failure) (lost : x.race.receive.1 = some (.error failure)) :=
    Race.accords_receive tabled lost
  have quiet := Race.quiet_of_receive tabled
  have racing' : x.race.receive.2.isRacing = true := by
    rcases Race.receive_cases x.race with ⟨he, -⟩ | ⟨pid, data, -, he⟩
    · rw [he]; exact racing
    · rw [he]; exact racing
  unfold listen
  rcases answer : x.race.receive with ⟨- | failure | ⟨pid, data⟩, race⟩ <;>
    rw [answer] at tabled' signal told quiet racing' <;> dsimp only at tabled' signal racing' ⊢
  · have quiet : race.signal.cause = none := signal ▸ quiet (by simp)
    split_ifs
    · exact agreed_perform tabled' racing' quiet Election.blames_handle
    · obtain ⟨_, state⟩ := x
      dsimp only at listens
      subst listens
      exact .listening tabled' racing'
  · refine agreed_fail (x := { x with race }) ?_ _
    rw [signal]
    exact (told failure rfl).imp_left fun dry => ⟨dry.1, by simp [dry.2]⟩
  · exact agreed_perform (x := { x with race }) tabled' racing' (signal ▸ quiet (by simp))
      Election.blames_handle

theorem agreed_connect {make : Setup → Except EngineFault E} {config : Config} {pids : List PathId}
    {now : Nat} {s : Entropy} : Agreed ((idle : Session E).connect make config pids now s).1 := by
  have quiet : (Race.idle.enter pids).2.signal.cause = none := by
    rw [Race.signal_enter]
    rfl
  have tabled (born : (Race.start [] pids).1 = .ok ()) := Race.tabled_start born
  have entered : Race.start [] pids = Race.idle.enter pids := rfl
  simp only [connect, idle]
  rcases answer : Race.idle.enter pids with ⟨failure | ⟨⟩, race⟩ <;>
    rw [entered, answer] at tabled <;> rw [answer] at quiet
  · have other : failure ≠ .closed := by
      obtain ⟨why, rfl⟩ := Race.refused_of_enter (congrArg Prod.fst answer)
      nofun
    exact agreed_fail (x := ⟨race, .idle⟩) (.inl ⟨quiet, other⟩) none
  · have racing : race.isRacing = true := by
      obtain ⟨-, -, signal, -, he⟩ := Race.start_eq (congrArg Prod.fst (entered.trans answer))
      have same : race = _ := (congrArg Prod.snd (entered.trans answer)).symm.trans he
      rw [same]
      rfl
    dsimp only
    cases make (config.setup pids) with
    | error fault =>
      have other : fault.during .initializing none "create engine" ≠ .closed :=
        Failure.ne_closed_of_isRejection rfl
      exact agreed_fail (x := ⟨race, .idle⟩) (.inl ⟨quiet, other⟩) none
    | ok engine =>
      exact agreed_perform (x := ⟨race, .idle⟩) (tabled rfl) racing quiet Election.blames_start

theorem agreed_proceed (h : Agreed x) (progress : Progress) (now : Nat) (s : Entropy) :
    Agreed (x.proceed progress now s) := by
  unfold proceed
  cases h with
  | acting tabled on calm => exact agreed_act tabled on calm
  | writing tabled on =>
    dsimp only
    split_ifs with halting
    · exact agreed_interrupt tabled (.writing tabled on)
    · have quiet := Race.cause_of_running tabled.heard (Bool.not_eq_true _ ▸ halting)
      exact agreed_wrote tabled on quiet
  | listening tabled on => exact agreed_listen tabled on rfl
  | connected => exact .connected
  | failed accords => exact .failed accords

end Session

namespace Attempt

variable {E : Type} [Engine E] (make : Setup → Except EngineFault E) (config : Config)
  (pids : List PathId)

def Move.isProceed : Move → Bool
  | .proceed .. => true
  | _ => false

/-- No other task moves between two steps that the session makes without waiting. -/
def isUndivided : List Move → Attempt E → Bool
  | [], _ => true
  | m :: ms, a => (!a.session.isActing || m.isProceed) && isUndivided ms (a.after make config pids m)

variable {make config pids} {a : Attempt E}

theorem isRacing_pump {r : Race} {pid : PathId} {item : Option Inbound} (racing : r.isRacing = true) :
    (r.after (.pump pid item)).isRacing = true := by
  simpa only [Race.isRacing, (Race.pumped_after r pid item).consumer] using racing

theorem isRacing_sweep {r : Race} (racing : r.isRacing = true) : (r.after .sweep).isRacing = true := by
  simp only [Race.after, Race.sweep]
  split_ifs
  · split <;> exact racing
  · exact racing

theorem agreed_after (h : a.session.Agreed) {m : Move}
    (undivided : (!a.session.isActing || m.isProceed) = true) :
    (a.after make config pids m).session.Agreed := by
  have waits (other : m.isProceed = false) : a.session.isActing = false := by
    simpa [other] using undivided
  cases m with
  | raise cause => exact h.onRace (waits rfl) fun racing => racing
  | sweep => exact h.onRace (waits rfl) isRacing_sweep
  | pump pid item => exact h.onRace (waits rfl) isRacing_pump
  | proceed progress now s => exact Session.agreed_proceed h progress now s
  | connect now s =>
    have begun : a.session.isIdle = false := by
      obtain ⟨⟨race, state⟩, announced, nominations⟩ := a
      cases h <;> rfl
    simpa [after, begun] using h

theorem agreed_run (h : a.session.Agreed) (ms : List Move)
    (undivided : isUndivided make config pids ms a = true) :
    (a.run make config pids ms).session.Agreed := by
  induction ms generalizing a with
  | nil => exact h
  | cons m ms ih =>
    obtain ⟨first, rest⟩ := Bool.and_eq_true_iff.1 undivided
    exact ih (agreed_after h first) rest

/-- If the signal was quiet at the start and the run is undivided, an attempt that fails has raised the
cause that its failure stands for. The exception is a signal raised as `closed`: the attempt then fails
as `closed`, although the cause of that failure is `cancelled`. -/
theorem raised_of_failed (make : Setup → Except EngineFault E) (config : Config) (pids : List PathId)
    (now : Nat) (s : Entropy) (ms : List Move)
    (undivided : isUndivided make config pids ms (new.after make config pids (.connect now s)) = true) :
    let a : Attempt E := new.run make config pids (.connect now s :: ms)
    ∀ failure, a.session.result? = some (.error failure) →
      (failure ≠ .closed → a.session.race.signal.cause = some failure.cause) ∧
      (failure = .closed → a.session.race.signal.cause = some .closed) := by
  intro a failure failed
  have begun : (new.after make config pids (.connect now s)).session.Agreed :=
    Session.agreed_connect
  have agreed : a.session.Agreed := agreed_run begun ms undivided
  have raised : a.session.race.signal.cause = some failure.origin := by
    generalize a.session = x at agreed failed
    cases agreed with
    | failed accords =>
      cases failed
      exact accords
    | acting | writing | listening | connected => cases failed
  refine ⟨fun other => raised.trans (congrArg some (Failure.origin_of_ne other)), ?_⟩
  rintro rfl
  exact raised

/-- Has no frames and never yields anything. -/
def silent : Script where
  isNominator := false
  frames := .ok []
  rules := []
  nominations := []
  creation := none
  queue := []
  nominated := none
  calls := []

/-- An attempt with one path, after it has begun to wait and `m` has happened. -/
def plainAttempt (m : Move) : Attempt Script :=
  let go : Move := .proceed (.inl (.ok ())) 0 (.cycle [])
  new.run (fun _ => .ok silent) (.standard .responder (Octets.zero 32)) [5]
    [.connect 0 (.cycle []), go, m, go]

/-- The path ends, and the attempt fails with `noPathsRemaining`. -/
theorem raised_of_failed_ended :
    let go : Move := .proceed (.inl (.ok ())) 0 (.cycle [])
    let ms := [go, .pump 5 (some .ended), go]
    let make : Setup → Except EngineFault Script := fun _ => .ok silent
    let config : Config := .standard .responder (Octets.zero 32)
    isUndivided make config [5] ms (new.after make config [5] (.connect 0 (.cycle []))) = true ∧
    (plainAttempt (.pump 5 (some .ended))).session.result? = some (.error .noPathsRemaining) ∧
    (plainAttempt (.pump 5 (some .ended))).session.race.signal.cause =
      some Failure.noPathsRemaining.cause := by
  intro go ms make config
  have undivided : isUndivided make config [5] ms
      (new.after make config [5] (.connect 0 (.cycle []))) = true := by cbv
  have failed : (plainAttempt (.pump 5 (some .ended))).session.result? =
      some (.error .noPathsRemaining) := by cbv
  exact ⟨undivided, failed,
    (raised_of_failed make config [5] 0 (.cycle []) ms undivided _ failed).1 (by decide)⟩

/-- The signal is raised as `closed` while the attempt waits. -/
theorem closed_plainAttempt :
    let go : Move := .proceed (.inl (.ok ())) 0 (.cycle [])
    let make : Setup → Except EngineFault Script := fun _ => .ok silent
    let config : Config := .standard .responder (Octets.zero 32)
    isUndivided make config [5] [go, .raise .closed, go]
      (new.after make config [5] (.connect 0 (.cycle []))) = true ∧
    (plainAttempt (.raise .closed)).session.result? = some (.error .closed) ∧
    (plainAttempt (.raise .closed)).session.race.signal.cause = some .closed ∧
    Failure.closed.cause = .cancelled := by
  intro go make config
  exact ⟨by cbv, by cbv, by cbv, rfl⟩

end Attempt

end PathRace
