import PathRace.Proofs.Exchange.Push

/-! The clock is used for measuring only. With the clock stopped, an exchange gives the same outcomes up
to the reported round trips (`processFrame_timeless`). -/

namespace PathRace

def Stage.timeless : Stage → Stage
  | awaitingAuthHello secret challenge _ => awaitingAuthHello secret challenge 0
  | awaitingAuth transport challenge _ => awaitingAuth transport challenge 0
  | stage => stage

@[simp] theorem Stage.isNominated_timeless (stage : Stage) :
    stage.timeless.isNominated = stage.isNominated := by cases stage <;> rfl

def Strand.timeless (strand : Strand) : Strand := { strand with stage := strand.stage.timeless }

def Update.timeless : Update → Update
  | ready _ => ready 0
  | nominated hash => nominated hash

def Outcome.timeless (o : Outcome) : Outcome := { o with update := o.update.map Update.timeless }

namespace Device

variable {S : Suite}

def Step.timeless (t : Step) : Step :=
  { t with result := t.result.map fun (stage, o) => (stage.timeless, o.timeless) }

theorem step_timeless (d : Device) (pid : PathId) (now : Nat) (stage : Stage) (c : Bytes)
    (s : Entropy) : d.step S pid 0 stage.timeless c s = (d.step S pid now stage c s).timeless := by
  cases stage with
  | awaitingHello =>
    simp only [step, Stage.timeless, onHello]
    rcases (d.authLane S d.role.peer pid).receive S c with ⟨fault | m, lane⟩
    · rfl
    · cases m with
      | hello challenge key =>
        dsimp only
        cases S.agree (s.draw 32).1 key with
        | none => rfl
        | some shared =>
          dsimp only [Step.timeless]
          rcases ((d.authLane S d.role pid).send S _).frame with fault | frame <;> rfl
      | _ => rfl
  | awaitingAuthHello secret own sentAt =>
    simp only [step, Stage.timeless, onAuthHello]
    rcases (d.authLane S d.role.peer pid).receive S c with ⟨fault | m, lane⟩
    · rfl
    · cases m with
      | authHello response challenge key =>
        dsimp only
        split_ifs
        · rfl
        · cases S.agree secret key with
          | none => rfl
          | some shared =>
            dsimp only [Step.timeless]
            rcases (Lane.send S _ _).frame with fault | frame <;> rfl
      | _ => rfl
  | awaitingAuth transport own sentAt =>
    simp only [step, Stage.timeless, onAuth]
    rcases transport.rx.receive S c with ⟨fault | m, rx⟩
    · rfl
    · cases m with
      | auth response =>
        dsimp only
        split_ifs <;> rfl
      | _ => rfl
  | ready transport =>
    simp only [step, Stage.timeless, onNominate]
    rcases transport.rx.receive S c with ⟨fault | m, rx⟩
    · rfl
    · dsimp only
      split_ifs <;> rfl
  | nominated transport =>
    simp only [step, Stage.timeless, onUlp]
    rcases transport.rx.receive S c with ⟨fault | m, rx⟩
    · rfl
    · cases m <;> rfl
  | failed => rfl

end Device

namespace Exchange

variable {S : Suite}

def timeless (x : Exchange S) : Exchange S :=
  { x with strands := x.strands.map fun e => (e.1, e.2.timeless) }

theorem lookup_timeless (l : List (PathId × Strand)) (pid : PathId) :
    (l.map fun e => (e.1, e.2.timeless)).lookup pid = (l.lookup pid).map Strand.timeless := by
  induction l with
  | nil => rfl
  | cons e rest ih =>
    obtain ⟨p, strand⟩ := e
    rw [List.map_cons, lookup_cons, lookup_cons, ih]
    split_ifs <;> rfl

theorem strand?_timeless (x : Exchange S) (pid : PathId) :
    x.timeless.strand? pid = (x.strand? pid).map Strand.timeless := by
  unfold strand?
  show (if x.nominated.any (· != pid) then none else _) = _
  split_ifs
  · rfl
  · exact lookup_timeless x.strands pid

theorem put_timeless (x : Exchange S) (pid : PathId) (strand : Strand) :
    x.timeless.put pid strand.timeless = (x.put pid strand).timeless := by
  simp only [put, timeless, List.map_map]
  congr 1
  apply List.map_congr_left
  intro e _
  by_cases he : e.1 = pid <;> simp [he]

theorem settle_timeless (x : Exchange S) (pid : PathId) :
    x.timeless.settle pid = (x.settle pid).timeless := by
  simp only [settle, timeless, List.filter_map]
  rfl

theorem addChunk_timeless (x : Exchange S) (pid : PathId) (chunk : Bytes) :
    x.timeless.addChunk pid chunk = ((x.addChunk pid chunk).1, (x.addChunk pid chunk).2.timeless) := by
  simp only [addChunk, strand?_timeless]
  cases x.strand? pid with
  | none => rfl
  | some strand =>
    exact Prod.ext rfl (put_timeless x pid { strand with inbox := strand.inbox.push chunk })

/-- Apart from round trips, the result of a frame does not depend on the time. -/
theorem processFrame_timeless (x : Exchange S) (pid : PathId) (now : Nat) (s : Entropy) :
    x.timeless.processFrame pid 0 s =
      ((x.processFrame pid now s).1.map (·.map Outcome.timeless), (x.processFrame pid now s).2.1.timeless,
        (x.processFrame pid now s).2.2) := by
  simp only [processFrame, strand?_timeless]
  cases x.strand? pid with
  | none => rfl
  | some strand =>
    obtain ⟨inbox, stage⟩ := strand
    dsimp only [Option.map_some, Strand.timeless]
    rcases inbox.next with ⟨fault | _ | c, inbox'⟩
    · rfl
    · rfl
    · have device : x.timeless.device = x.device := rfl
      dsimp only
      rw [device, Device.step_timeless x.device pid now stage c s]
      cases hr : (x.device.step S pid now stage c s).result with
      | error fault =>
        simp only [Device.Step.timeless, hr, Except.map]
        exact Prod.ext rfl (Prod.ext (put_timeless (x.record _) pid ⟨inbox', .failed⟩) rfl)
      | ok result =>
        obtain ⟨stage', o⟩ := result
        simp only [Device.Step.timeless, hr, Except.map, Option.map_some, Stage.isNominated_timeless]
        have put := put_timeless (x.record (x.device.step S pid now stage c s).used) pid ⟨inbox', stage'⟩
        refine Prod.ext rfl (Prod.ext ?_ rfl)
        dsimp only [Strand.timeless] at put ⊢
        rw [show x.timeless.record _ = (x.record (x.device.step S pid now stage c s).used).timeless from rfl,
          put]
        have named (y : Exchange S) : y.timeless.nominated = y.nominated := rfl
        rw [named]
        split_ifs
        · exact settle_timeless ..
        · rfl

theorem nominate_timeless (x : Exchange S) (pid : PathId) :
    x.timeless.nominate pid = ((x.nominate pid).1, (x.nominate pid).2.timeless) := by
  have device : x.timeless.device = x.device := rfl
  have named : x.timeless.nominated = x.nominated := rfl
  simp only [nominate, device, named, strand?_timeless]
  cases x.strand? pid with
  | none => split_ifs <;> rfl
  | some strand =>
    obtain ⟨inbox, stage⟩ := strand
    cases stage with
    | ready transport =>
      dsimp only [Option.map_some, Strand.timeless, Stage.timeless]
      split_ifs
      · rfl
      · cases (transport.tx.send S .nominate).frame with
        | error fault => exact Prod.ext rfl (put_timeless (x.record _) pid ⟨inbox, .failed⟩)
        | ok frame =>
          dsimp only
          refine Prod.ext rfl ?_
          dsimp only
          rw [← settle_timeless, ← put_timeless]
          rfl
      · rfl
    | _ => split_ifs <;> rfl

end Exchange

end PathRace
