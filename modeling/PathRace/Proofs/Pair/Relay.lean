import PathRace.Proofs.Pair.Meeting

/-! Two devices on an honest network: what one device sends on a path reaches the other complete and in
order, in chunks of any size. -/

namespace PathRace

/-- Two devices, and the bytes that each has sent on a path and the other has not received yet. -/
structure Relay (S : Suite) where
  pair : Pair S
  flight : Role → PathId → Bytes

namespace Relay

variable {S : Suite}

inductive Move
  | start (r : Role) (now : Nat) (s : Entropy)
  /-- At most `n` of the next bytes of a path reach a device. -/
  | deliver (r : Role) (pid : PathId) (n : Nat)
  | process (r : Role) (pid : PathId) (now : Nat) (s : Entropy)
  | nominate (r : Role) (pid : PathId)

def Move.role : Move → Role
  | .start r .. | .deliver r .. | .process r .. | .nominate r _ => r

def call (v : Relay S) : Move → Call
  | .start _ now s => .start now s
  | .deliver r pid n => .addChunk pid ((v.flight r.peer pid).take n)
  | .process _ pid now s => .processFrame pid now s
  | .nominate _ pid => .nominate pid

def answer (v : Relay S) (m : Move) : Except EngineFault (List (PathId × Outcome)) :=
  ((v.pair.engine m.role).call (v.call m)).1

def sent (ys : List (PathId × Outcome)) (pid : PathId) : Bytes :=
  ys.flatMap fun (p, o) => if p = pid then o.out.getD [] else []

def left (v : Relay S) (m : Move) (q : Role) (p : PathId) : Bytes :=
  match m with
  | .deliver r pid n => if q = r.peer ∧ p = pid then (v.flight q p).drop n else v.flight q p
  | _ => v.flight q p

def after (v : Relay S) (m : Move) : Relay S where
  pair := v.pair.after (m.role, v.call m)
  flight q p :=
    v.left m q p ++ if q = m.role then sent ((v.pair.engine m.role).yields (v.call m)) p else []

/-- A call of the device has reported the path ready. -/
def Readied (v : Relay S) (r : Role) (pid : PathId) : Prop :=
  ∃ o rtt, (r, pid, o) ∈ v.pair.log ∧ o.update = some (.ready rtt)

/-- A legal move: no call comes before the start, there is one start and one nomination, of a path
reported ready, and after a device has nominated it is asked about no other path. -/
def Legal (nominator : Role) (pids : List PathId) (v : Relay S) : Move → Prop
  | .start r .. => (v.pair.engine r).started = false
  | .deliver r pid _ | .process r pid .. =>
    (v.pair.engine r).started = true ∧ pid ∈ pids ∧
      ((v.pair.engine r).nominated = none ∨ (v.pair.engine r).nominated = some pid)
  | .nominate r pid =>
    r = nominator ∧ (v.pair.engine r).nominated = none ∧ v.Readied r pid

def run (ms : List Move) (v : Relay S) : Relay S := ms.foldl after v

/-- Every move of a run is legal. -/
def Orderly (nominator : Role) (pids : List PathId) : List Move → Relay S → Prop
  | [], _ => True
  | m :: ms, v => v.Legal nominator pids m ∧ Orderly nominator pids ms (v.after m)

/-- No call of a run fails. -/
def Succeeds : List Move → Relay S → Prop
  | [], _ => True
  | m :: ms, v => (∃ ys, v.answer m = .ok ys) ∧ Succeeds ms (v.after m)

/-- Everything that has been sent to a device on a path has been delivered and processed. -/
def Drained (v : Relay S) (r : Role) (pid : PathId) : Prop :=
  v.flight r.peer pid = [] ∧ (v.pair.engine r).buffered pid = 0

def Met (ak : AuthKey) (nominator : Role) (pids : List PathId) (v : Relay S) : Prop :=
  v.pair.Met ak nominator (fun _ => pids) ∧ ∀ r pid, v.flight r pid = []

theorem readied_iff {v : Relay S} {r : Role} {pid : PathId} : v.Readied r pid ↔
    ∃ e ∈ v.pair.log, e.1 = r ∧ e.2.1 = pid ∧ (e.2.2.update matches some (.ready _)) := by
  constructor
  · rintro ⟨o, rtt, hm, hu⟩
    exact ⟨_, hm, rfl, rfl, by simp [hu]⟩
  · rintro ⟨⟨_, _, o⟩, hm, rfl, rfl, hu⟩
    split at hu
    · rename_i rtt ho
      exact ⟨o, rtt, hm, ho⟩
    · cases hu

instance decidableReadied (v : Relay S) (r : Role) (pid : PathId) : Decidable (v.Readied r pid) :=
  decidable_of_iff _ readied_iff.symm

instance decidableLegal (nominator : Role) (pids : List PathId) (v : Relay S) :
    (m : Move) → Decidable (v.Legal nominator pids m)
  | .start .. => inferInstanceAs (Decidable (_ = _))
  | .deliver .. | .process .. => inferInstanceAs (Decidable (_ ∧ _ ∧ (_ ∨ _)))
  | .nominate .. => inferInstanceAs (Decidable (_ ∧ _ ∧ _))

instance decidableOrderly (nominator : Role) (pids : List PathId) :
    (ms : List Move) → (v : Relay S) → Decidable (Orderly nominator pids ms v)
  | [], _ => .isTrue trivial
  | m :: ms, v =>
    have := decidableOrderly nominator pids ms (v.after m)
    inferInstanceAs (Decidable (v.Legal nominator pids m ∧ Orderly nominator pids ms (v.after m)))

instance decidableDrained (v : Relay S) (r : Role) (pid : PathId) : Decidable (v.Drained r pid) :=
  inferInstanceAs (Decidable (_ ∧ _))

@[simp] theorem sent_nil (pid : PathId) : sent [] pid = [] := rfl

theorem sent_one (p : PathId) (o : Outcome) (pid : PathId) :
    sent [(p, o)] pid = if p = pid then o.out.getD [] else [] := by
  simp [sent]

theorem sent_frames {frames : List (PathId × Bytes)} (hn : (frames.map Prod.fst).Nodup)
    (pid : PathId) :
    sent (frames.map fun (p, frame) => (p, Outcome.frame frame)) pid =
      (frames.lookup pid).getD [] := by
  induction frames with
  | nil => rfl
  | cons e rest ih =>
    obtain ⟨p, frame⟩ := e
    obtain ⟨hp, hn⟩ := List.nodup_cons.1 hn
    have hrest := ih hn
    simp only [sent, List.map_cons, List.flatMap_cons] at hrest ⊢
    rw [hrest]
    by_cases h : p = pid
    · subst h
      have hnone : rest.lookup p = none := List.lookup_eq_none_iff.2 fun e he =>
        bne_iff_ne.2 fun h => hp (List.mem_map.2 ⟨e, he, h.symm⟩)
      simp [hnone, Outcome.frame, Outcome.none]
    · simp [h, List.lookup_cons, beq_false_of_ne (Ne.symm h)]

theorem after_of_ok {v : Relay S} {m : Move} {x' : Exchange S} {ys : List (PathId × Outcome)}
    (ha : (v.pair.engine m.role).admits (v.call m) = true)
    (hc : (v.pair.engine m.role).call (v.call m) = (.ok ys, x')) :
    v.after m = ⟨v.pair.set m.role x' ys,
      fun q p => v.left m q p ++ if q = m.role then sent ys p else []⟩ := by
  have hy : (v.pair.engine m.role).yields (v.call m) = ys := by rw [Exchange.yields, hc]
  simp only [after, Pair.after, ha, if_true, hc, hy]

end Relay

end PathRace
