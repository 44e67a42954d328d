import PathRace.Proofs.Exchange.Turn
import PathRace.Proofs.Wire.Plain

/-! Two devices and a network that controls every delivery: any bytes, on any path, at any time. The
network cannot produce sealings of its own (`Authentic`). -/

namespace PathRace

theorem Role.eq_or_eq_peer (r q : Role) : r = q ∨ r = q.peer := by
  cases r <;> cases q <;> simp [peer]

theorem Role.ne_peer (r : Role) : r ≠ r.peer := by cases r <;> simp [peer]

namespace Exchange

variable {S : Suite}

/-- No call comes before the start. -/
def admits (x : Exchange S) : Call → Bool
  | .start .. => true
  | _ => x.started

/-- The lane that the next frame of a path opens on. -/
def inbound (S : Suite) (d : Device) (pid : PathId) : Stage → Option Lane
  | .awaitingHello | .awaitingAuthHello .. => some (d.authLane S d.role.peer pid)
  | .awaitingAuth transport .. | .ready transport | .nominated transport => some transport.rx
  | .failed => none

/-- The ciphertext that a call tries to open, with its lane. -/
def opening? (x : Exchange S) : Call → Option (Lane × Bytes)
  | .processFrame pid _ _ =>
    match x.strand? pid with
    | some ⟨inbox, stage⟩ =>
      match inbox.next.1, inbound S x.device pid stage with
      | .ok (some c), some lane => some (lane, c)
      | _, _ => none
    | none => none
  | _ => none

end Exchange

/-- Two devices, and the outcomes of their calls so far, the latest first. -/
structure Pair (S : Suite) where
  engine : Role → Exchange S
  log : List (Role × PathId × Outcome)

namespace Pair

variable {S : Suite}

/-- Both devices hold the same key, exactly one is the nominator, and no call has been made. -/
def Met (ak : AuthKey) (nominator : Role) (pids : Role → List PathId) (w : Pair S) : Prop :=
  (∀ r, Exchange.new S ⟨r, r == nominator, ak, pids r⟩ = .ok (w.engine r)) ∧ w.log = []

def sealings (w : Pair S) : List Sealing := (w.engine .initiator).used ++ (w.engine .responder).used

/-- A ciphertext that opens was sealed by one of the devices under the same key and nonce (an ideal
cipher). -/
def Authentic (w : Pair S) (m : Role × Call) : Prop :=
  ∀ lane c, (w.engine m.1).opening? m.2 = some (lane, c) →
    (S.decrypt lane.key lane.nonce c).isSome = true →
    ∃ u ∈ w.sealings, u.key = lane.key ∧ u.nonce = lane.nonce ∧
      S.encrypt u.key u.nonce u.plaintext = c

def set (w : Pair S) (r : Role) (x : Exchange S) (ys : List (PathId × Outcome)) : Pair S :=
  ⟨Function.update w.engine r x, ys.map (r, ·) ++ w.log⟩

@[simp] theorem engine_set_self (w : Pair S) (r : Role) (x : Exchange S)
    (ys : List (PathId × Outcome)) : (w.set r x ys).engine r = x := Function.update_self ..

theorem engine_set_of_ne (w : Pair S) {r q : Role} (h : q ≠ r) (x : Exchange S)
    (ys : List (PathId × Outcome)) : (w.set r x ys).engine q = w.engine q :=
  Function.update_of_ne h ..

@[simp] theorem log_set (w : Pair S) (r : Role) (x : Exchange S) (ys : List (PathId × Outcome)) :
    (w.set r x ys).log = ys.map (r, ·) ++ w.log := rfl

@[simp] theorem set_engine (w : Pair S) (r : Role) : w.set r (w.engine r) [] = w := by
  simp [set]

section

variable {w : Pair S} {r : Role} {c : Call} {pid : PathId} {old new : Strand} {used : List Sealing}
  {o : Option Outcome} {x' : Exchange S}

theorem device_set (t : Exchange.Turned (w.engine r) x' pid old new used)
    (ys : List (PathId × Outcome)) (q : Role) :
    ((w.set r x' ys).engine q).device = (w.engine q).device := by
  by_cases hq : q = r
  · subst hq; rw [engine_set_self, t.device]
  · rw [engine_set_of_ne w hq]

theorem started_set (t : Exchange.Turned (w.engine r) x' pid old new used)
    (ys : List (PathId × Outcome)) (q : Role) :
    ((w.set r x' ys).engine q).started = (w.engine q).started := by
  by_cases hq : q = r
  · subst hq; rw [engine_set_self, t.started]
  · rw [engine_set_of_ne w hq]

theorem settled_set (h : ∀ q, (w.engine q).Settled)
    (deed : Exchange.Deed S (w.engine r).device pid c old new used o)
    (t : Exchange.Turned (w.engine r) x' pid old new used) (ys : List (PathId × Outcome)) (q : Role) :
    ((w.set r x' ys).engine q).Settled := by
  by_cases hq : q = r
  · subst hq; rw [engine_set_self]; exact (h q).turned deed t
  · rw [engine_set_of_ne w hq]; exact h q

theorem mem_log_set {q : Role} {p : PathId} {o' : Outcome} :
    (q, p, o') ∈ (w.set r x' (o.toList.map (pid, ·))).log ↔
      (q = r ∧ p = pid ∧ o = some o') ∨ (q, p, o') ∈ w.log := by
  cases o with
  | none => simp
  | some o => simp [eq_comm]

end

def after (w : Pair S) (m : Role × Call) : Pair S :=
  let x := w.engine m.1
  if x.admits m.2 then w.set m.1 (x.call m.2).2 (x.yields m.2) else w

def run (ms : List (Role × Call)) (w : Pair S) : Pair S := ms.foldl after w

/-- Every call of a run is authentic. -/
def Genuine : List (Role × Call) → Pair S → Prop
  | [], _ => True
  | m :: ms, w => w.Authentic m ∧ Genuine ms (w.after m)

instance decidableAuthentic (w : Pair S) (m : Role × Call) : Decidable (w.Authentic m) :=
  decidable_of_iff (∀ e ∈ (w.engine m.1).opening? m.2,
    (S.decrypt e.1.key e.1.nonce e.2).isSome = true →
    ∃ u ∈ w.sealings, u.key = e.1.key ∧ u.nonce = e.1.nonce ∧
      S.encrypt u.key u.nonce u.plaintext = e.2)
    ⟨fun h lane c ho => h (lane, c) ho, fun h e he => h e.1 e.2 he⟩

instance decidableGenuine : (ms : List (Role × Call)) → (w : Pair S) → Decidable (Genuine ms w)
  | [], _ => .isTrue trivial
  | m :: ms, w =>
    have := decidableGenuine ms (w.after m)
    inferInstanceAs (Decidable (w.Authentic m ∧ Genuine ms (w.after m)))

theorem genuine_append {a b : List (Role × Call)} {w : Pair S} (h : Genuine (a ++ b) w) :
    Genuine a w ∧ Genuine b (w.run a) := by
  induction a generalizing w with
  | nil => exact ⟨trivial, h⟩
  | cons m a ih =>
    obtain ⟨before, after⟩ := ih h.2
    exact ⟨⟨h.1, before⟩, after⟩

theorem run_keeps {P : Pair S → Prop} (step : ∀ w m, w.Authentic m → P w → P (w.after m))
    (ms : List (Role × Call)) {w : Pair S} (hg : Genuine ms w) (h : P w) : P (run ms w) := by
  induction ms generalizing w with
  | nil => exact h
  | cons m ms ih => exact ih hg.2 (step w m hg.1 h)

def Reported (w : Pair S) (r : Role) (pid : PathId) (hash : PathHash) : Prop :=
  ∃ o, (r, pid, o) ∈ w.log ∧ o.update = some (.nominated hash)

theorem Reported.mono {w : Pair S} {q : Role} {pid : PathId} {hash : PathHash}
    (h : w.Reported q pid hash) (r : Role) (x : Exchange S) (ys : List (PathId × Outcome)) :
    (w.set r x ys).Reported q pid hash := by
  obtain ⟨o, hm, hu⟩ := h
  exact ⟨o, List.mem_append_right _ hm, hu⟩

theorem mem_sealings {w : Pair S} {u : Sealing} :
    u ∈ w.sealings ↔ ∃ r, u ∈ (w.engine r).used := by
  simp only [sealings, List.mem_append]
  constructor
  · rintro (h | h)
    · exact ⟨_, h⟩
    · exact ⟨_, h⟩
  · rintro ⟨r, h⟩
    cases r
    · exact .inl h
    · exact .inr h

/-- Two devices with one path and the initiator as the nominator. -/
def plainPair : Pair Suite.plain where
  engine r := ⟨⟨r, r == .initiator, Octets.zero 32⟩, [(7, .fresh)], false, none, []⟩
  log := []

theorem met_plainPair : plainPair.Met (Octets.zero 32) .initiator fun _ => [7] :=
  ⟨fun r => by simp [Exchange.new, plainPair], rfl⟩

end Pair

end PathRace
