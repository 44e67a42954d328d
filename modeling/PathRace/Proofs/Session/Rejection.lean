import PathRace.Proofs.Connection.Halves

/-! Attempts that end in a rejection. A race raises no rejection by itself, so the rejection comes from
the engine, when it starts or when it processes a chunk. The rejection is raised before the race is
abandoned, and no path has been closed for it at that moment (`Rejected`). -/

namespace PathRace

theorem Failure.cause_of_isRejection {failure : Failure} (h : failure.isRejection = true) :
    failure.cause = .protocolError := by
  cases failure <;> first | rfl | cases h

/-! ### A race rejects nothing by itself -/

theorem Failure.isRejection_ofCause (cause : Cause) : (ofCause cause).isRejection = false := by
  cases cause <;> rfl

namespace Race

variable {r : Race} {failure : Failure}

theorem isRejection_openWrite {pid : PathId} (h : (r.openWrite pid).1 = .refused failure) :
    failure.isRejection = false := by
  unfold openWrite at h
  split at h
  · cases h
    exact Failure.isRejection_ofCause _
  · split_ifs at h

theorem isRejection_nominate {pid : PathId} (h : (r.nominate pid).1 = .error failure) :
    failure.isRejection = false := by
  obtain ⟨pids, -, -, -, same⟩ | ⟨pids, -, -, same⟩ | ⟨-, same⟩ := nominate_cases pid r <;>
    rw [same] at h <;> cases h
  · rfl
  · exact Failure.isRejection_ofCause _

theorem isRejection_receive (h : r.receive.1 = some (.error failure)) :
    failure.isRejection = false := by
  unfold receive at h
  split at h
  · cases h
    exact Failure.isRejection_ofCause _
  · split at h
    · split_ifs at h
      cases h
    · split_ifs at h
      cases h
      exact Failure.isRejection_ofCause _

theorem isRejection_enter {pids : List PathId} (h : (r.enter pids).1 = .error failure) :
    failure.isRejection = false := by
  unfold enter at h
  split_ifs at h
  · cases h
    rfl
  · split at h <;> cases h
    rfl

theorem signal_enter (pids : List PathId) (r : Race) : (r.enter pids).2.signal = r.signal := by
  unfold enter
  split_ifs
  · rfl
  · split <;> rfl

theorem signal_receive (r : Race) : r.receive.2.signal = r.signal := by
  obtain ⟨same, -⟩ | ⟨pid, data, -, same⟩ := receive_cases r <;> rw [same]

end Race

/-! ### A rejection -/

namespace Session

variable {E : Type} {x y : Session E} {election : Election E}

/-- Whether the attempt has failed because its engine rejected something. -/
def isRejected (x : Session E) : Bool :=
  match x.state with
  | .failed failure _ => failure.isRejection
  | _ => false

/-- The rejection has been raised, and no path has been closed since. -/
structure Rejected (race : Race) (y : Session E) : Prop where
  failed : ∃ failure engine, y.state = .failed failure engine
  table : race.SameTable y.race
  heard : y.race.signal.heard = some .protocolError

theorem rejected_fail (quiet : x.race.signal.cause = none) {failure : Failure}
    (rejected : failure.isRejection = true) (engine : Option E) :
    Rejected x.race (x.fail failure engine) where
  failed := ⟨failure, engine, rfl⟩
  table := (Race.sameTable_raise ..).trans (Race.sameTable_abandon _)
  heard := by
    have raised : (x.race.raise failure.cause).signal = ⟨some .protocolError, true⟩ := by
      simp [Race.raise, Signal.raise, quiet, Failure.cause_of_isRejection rejected]
    have grows := (Race.sameTable_abandon (x.race.raise failure.cause)).signal.grows
    have cause := grows.cause .protocolError (by rw [raised])
    have stopped := grows.stopped (by rw [raised])
    simp [fail, Signal.heard, stopped, cause]

theorem rejected_perform (quiet : x.race.signal.cause = none) {result : Except Failure (List Action)}
    (h : (x.perform result election).isRejected = true) :
    Rejected x.race (x.perform result election) := by
  cases result with
  | error failure => exact rejected_fail quiet h _
  | ok todo => cases h

theorem isRejected_wrote (election : Election E) (pid : PathId) (progress : Progress)
    (todo : List Action) (winner : Option (PathId × PathHash)) (x : Session E) :
    (x.wrote election pid progress todo winner).isRejected = false := by
  unfold wrote
  split <;> rfl

theorem isRejected_interrupt (h : x.isRejected = false) (election : Election E) :
    (x.interrupt election).isRejected = false := by
  unfold interrupt
  split
  · exact h
  · exact Failure.isRejection_ofCause _

theorem isRejected_act (election : Election E) (todo : List Action)
    (winner : Option (PathId × PathHash)) (x : Session E) :
    (x.act election todo winner).isRejected = false := by
  unfold act
  split
  · split <;> rename_i opened
    · exact Race.isRejection_openWrite (congrArg Prod.fst opened)
    · rfl
    · rfl
  · rfl
  · rfl
  · split <;> rename_i nominated
    · exact Race.isRejection_nominate (congrArg Prod.fst nominated)
    · rfl

variable [Engine E]

theorem rejected_listen (quiet : x.race.signal.cause = none) (calm : x.isRejected = false) {now : Nat}
    {s : Entropy}
    (h : (x.listen election now s).1.isRejected = true) :
    Rejected x.race (x.listen election now s).1 := by
  have quiet' : x.race.receive.2.signal.cause = none := by rw [Race.signal_receive, quiet]
  have received {z : Session E} (r : Rejected x.race.receive.2 z) : Rejected x.race z :=
    ⟨r.failed, (Race.sameTable_receive x.race).trans r.table, r.heard⟩
  unfold listen at h ⊢
  split at h <;> rename_i e <;> rw [e] at quiet' received
  · have unheard := Race.isRejection_receive (congrArg Prod.fst e)
    exact absurd h (by simp [isRejected, fail, unheard])
  · exact received (rejected_perform quiet' h)
  · dsimp only at h ⊢
    split_ifs at h ⊢
    · exact received (rejected_perform quiet' h)
    · exact absurd h (by simpa [isRejected] using calm)

theorem rejected_connect {make : Setup → Except EngineFault E} {config : Config} {pids : List PathId}
    (quiet : x.race.signal.cause = none) {now : Nat} {s : Entropy}
    (h : (x.connect make config pids now s).1.isRejected = true) :
    (x.race.enter pids).1 = .ok () ∧
      Rejected (x.race.enter pids).2 (x.connect make config pids now s).1 := by
  have quiet' : (x.race.enter pids).2.signal.cause = none := by rw [Race.signal_enter, quiet]
  unfold connect at h ⊢
  split at h <;> rename_i e <;> rw [e] at quiet' ⊢
  · have unheard := Race.isRejection_enter (congrArg Prod.fst e)
    exact absurd h (by simp [isRejected, fail, unheard])
  · refine ⟨rfl, ?_⟩
    dsimp only at h ⊢
    split at h
    · exact rejected_fail (x := { x with race := _ }) quiet' rfl none
    · exact rejected_perform quiet' h

end Session

end PathRace
