import PathRace.Proofs.Exchange.Turn
import PathRace.Session

/-! The two halves of a connection over the key exchange, called in any order with any input. The
nominated path yields payloads and faults only, so no call finds the engine in breach of its contract
(`engaged_uses`). -/

namespace PathRace

/-- The engine has broken its contract. -/
def Failure.isBreach : Failure → Bool
  | .contractViolation .. => true
  | _ => false

theorem Failure.isBreach_ofCause (cause : Cause) : (ofCause cause).isBreach = false := by
  cases cause <;> rfl

theorem Race.isBreach_read {r : Race} {failure : Failure} (h : r.read.1 = some (.error failure)) :
    failure.isBreach = false := by
  unfold read at h
  split at h
  · simp at h
  · split at h
    · rename_i cause _
      obtain rfl : .ofCause cause = failure := by simpa using h
      exact Failure.isBreach_ofCause cause
    · split at h
      · dsimp only at h
        split_ifs at h
        · simp at h
        · obtain rfl := Except.error.inj (Option.some.inj h)
          rfl
      · split_ifs at h
        cases hc : r.signal.cause with
        | none => simp [hc] at h
        | some cause =>
          obtain rfl : .ofCause cause = failure := by simpa [hc] using h
          exact Failure.isBreach_ofCause cause
  · obtain rfl := Except.error.inj (Option.some.inj h)
    rfl

namespace Exchange

variable {S : Suite} {x x' : Exchange S} {pid : PathId}

/-- Path `pid` is nominated and has not left the stage of a nominated path, unless it has failed. -/
structure Holds (x : Exchange S) (pid : PathId) : Prop where
  settled : x.Settled
  nominated : x.nominated = some pid

theorem Holds.turn {c : Call} {ys : List (PathId × Outcome)} (h : x.Holds pid)
    (t : x.Turn c ys x') : x'.Holds pid :=
  ⟨h.settled.turn t, t.nominated h.nominated⟩

theorem Holds.payload (h : x.Holds pid) {now : Nat} {s s' : Entropy} {o : Outcome}
    (answer : Engine.processFrame pid now x s = (.ok (some o), x', s')) :
    ∃ data, o = .data data := by
  obtain ⟨old, new, used, deed, turned⟩ := turned_of_processFrame answer
  have stays := h.settled.stays pid old h.nominated turned.before
  cases deed with
  | took next advance =>
    cases advance with
    | carried => exact ⟨_, rfl⟩
    | answered | proven | confirmed | nominated => simp [Stage.isNominated] at stays

theorem frame_of_createFrame {data : Bytes} {o : Outcome}
    (answer : Engine.createFrame data x = (.ok o, x')) : ∃ frame, o = .frame frame := by
  have answer : x.createFrame data = (.ok o, x') := answer
  unfold createFrame at answer
  split at answer
  · simp at answer
  · split at answer
    · simp at answer
    · rename_i inbox transport _
      cases hf : (transport.tx.send S (.ulp data)).frame with
      | error fault => simp [hf, Except.map] at answer
      | ok frame =>
        simp only [hf, Except.map, Prod.mk.injEq, Except.ok.injEq] at answer
        exact ⟨frame, answer.1.symm⟩
    · simp at answer

end Exchange

namespace Session

/-- The uses of a connection and the changes of its race in between. A `recv` asks the engine and feeds
it; a `send` makes a frame and writes it piece by piece. -/
inductive Use
  | meanwhile (race : Race)
  | take (now : Nat) (s : Entropy)
  | feed
  | send (data : Bytes)
  | write
  /-- The open write has failed. -/
  | fault (fault : PathFault)

section

variable {E : Type} [Engine E]

/-- One use, with its failure. -/
def use (u : Use) (x : Session E) : Option Failure × Session E :=
  match u with
  | .meanwhile race => (none, { x with race })
  | .take now s =>
    match x.take now s with
    | (some (.error failure), x, _) => (some failure, x)
    | (_, x, _) => (none, x)
  | .feed =>
    match x.feed with
    | (some (.error failure), x) => (some failure, x)
    | (_, x) => (none, x)
  | .send data =>
    match x.send data with
    | (.error failure, x) => (some failure, x)
    | (.ok _, x) => (none, x)
  | .write =>
    match x.race.openWinnerWrite with
    | .refused failure => (some failure, x)
    | _ => (none, x)
  | .fault fault =>
    match x.race.winner? with
    | none => (some .closed, x)
    | some pid =>
      let (failure, race) := x.race.failWinnerWrite pid fault
      (some failure, { x with race })

def uses : List Use → Session E → List Failure
  | [], _ => []
  | u :: us, x => (x.use u).1.toList ++ uses us (x.use u).2

end

variable {S : Suite}

/-- A connection whose engine has nominated its path. -/
def Engaged (x : Session (Exchange S)) : Prop :=
  ∃ engine pid hash, x.state = .connected engine pid hash ∧ engine.Holds pid

theorem Engaged.take {x : Session (Exchange S)} (h : x.Engaged) (now : Nat) (s : Entropy) :
    (∀ failure, (x.take now s).1 = some (.error failure) → failure.isBreach = false) ∧
      (x.take now s).2.1.Engaged := by
  obtain ⟨engine, pid, hash, state, holds⟩ := h
  have kept : (engine.call (.processFrame pid now s)).2 = (Engine.processFrame pid now engine s).2.1 := rfl
  have holds' := holds.turn (Exchange.turn_processFrame engine pid now s)
  rw [kept] at holds'
  simp only [Session.take, state]
  rcases ha : Engine.processFrame pid now engine s with ⟨fault | _ | o, engine', s'⟩ <;>
    rw [ha] at holds'
  · exact ⟨fun failure hf => by simp at hf; subst hf; rfl, engine', pid, hash, rfl, holds'⟩
  · exact ⟨by simp, engine', pid, hash, rfl, holds'⟩
  · obtain ⟨data, rfl⟩ := holds.payload ha
    exact ⟨by simp [Outcome.data, Outcome.none], engine', pid, hash, rfl, holds'⟩

theorem Engaged.send {x : Session (Exchange S)} (h : x.Engaged) (data : Bytes) :
    (∀ failure, (x.send data).1 = .error failure → failure.isBreach = false) ∧
      (x.send data).2.Engaged := by
  obtain ⟨engine, pid, hash, state, holds⟩ := h
  have kept : (engine.call (.createFrame data)).2 = (Engine.createFrame data engine).2 := rfl
  have holds' := holds.turn (Exchange.turn_createFrame engine data)
  rw [kept] at holds'
  simp only [Session.send, state]
  cases hc : x.race.signal.cause with
  | some cause =>
    refine ⟨fun failure hf => ?_, engine, pid, hash, state, holds⟩
    obtain rfl := Except.error.inj hf
    exact Failure.isBreach_ofCause cause
  | none =>
    rcases ha : Engine.createFrame data engine with ⟨fault | o, engine'⟩ <;> rw [ha] at holds'
    · exact ⟨fun failure hf => Except.error.inj hf ▸ rfl, engine', pid, hash, rfl, holds'⟩
    · obtain ⟨frame, rfl⟩ := Exchange.frame_of_createFrame ha
      exact ⟨by simp [Outcome.frame, Outcome.none], engine', pid, hash, rfl, holds'⟩

theorem Engaged.feed {x : Session (Exchange S)} (h : x.Engaged) :
    (∀ failure, x.feed.1 = some (.error failure) → failure.isBreach = false) ∧
      x.feed.2.Engaged := by
  obtain ⟨engine, pid, hash, state, holds⟩ := h
  simp only [Session.feed, state]
  rcases hr : x.race.read with ⟨_ | failure | _ | data, race⟩
  · exact ⟨by simp, engine, pid, hash, rfl, holds⟩
  · refine ⟨fun failure' hf => ?_, engine, pid, hash, rfl, holds⟩
    obtain rfl : failure = failure' := Except.error.inj (Option.some.inj hf)
    exact Race.isBreach_read (by rw [hr])
  · exact ⟨by simp, engine, pid, hash, rfl, holds⟩
  · have kept : (engine.call (.addChunk pid data)).2 = (Engine.addChunk pid data engine).2 := rfl
    have holds' := holds.turn (holds.settled.turn_addChunk pid data)
    rw [kept] at holds'
    rcases ha : Engine.addChunk pid data engine with ⟨fault | _, engine'⟩ <;> rw [ha] at holds' <;>
      simp only [ha]
    · refine ⟨fun failure hf => ?_, engine', pid, hash, rfl, holds'⟩
      obtain rfl := Except.error.inj (Option.some.inj hf)
      rfl
    · exact ⟨by simp, engine', pid, hash, rfl, holds'⟩

theorem Engaged.use {x : Session (Exchange S)} (h : x.Engaged) (u : Use) :
    (∀ failure, (x.use u).1 = some failure → failure.isBreach = false) ∧ (x.use u).2.Engaged := by
  cases u with
  | meanwhile race => exact ⟨nofun, h⟩
  | take now s =>
    obtain ⟨fails, kept⟩ := h.take now s
    simp only [Session.use]
    generalize x.take now s = answer at fails kept ⊢
    rcases answer with ⟨_ | failure | data, x', s'⟩
    · exact ⟨nofun, kept⟩
    · exact ⟨fun _ hf => Option.some.inj hf ▸ fails failure rfl, kept⟩
    · exact ⟨nofun, kept⟩
  | feed =>
    obtain ⟨fails, kept⟩ := h.feed
    simp only [Session.use]
    generalize x.feed = answer at fails kept ⊢
    rcases answer with ⟨_ | failure | more, x'⟩
    · exact ⟨nofun, kept⟩
    · exact ⟨fun _ hf => Option.some.inj hf ▸ fails failure rfl, kept⟩
    · exact ⟨nofun, kept⟩
  | send data =>
    obtain ⟨fails, kept⟩ := h.send data
    simp only [Session.use]
    generalize x.send data = answer at fails kept ⊢
    rcases answer with ⟨failure | pieces, x'⟩
    · exact ⟨fun _ hf => Option.some.inj hf ▸ fails failure rfl, kept⟩
    · exact ⟨nofun, kept⟩
  | write =>
    simp only [Session.use, Race.openWinnerWrite]
    cases x.race.signal.cause with
    | none => exact ⟨nofun, h⟩
    | some cause =>
      exact ⟨fun failure hf => Option.some.inj hf ▸ Failure.isBreach_ofCause cause, h⟩
  | fault fault =>
    simp only [Session.use]
    cases x.race.winner? with
    | none => exact ⟨fun failure hf => Option.some.inj hf ▸ rfl, h⟩
    | some pid => exact ⟨fun failure hf => Option.some.inj hf ▸ rfl, h⟩

theorem engaged_uses {x : Session (Exchange S)} (h : x.Engaged) (us : List Use) :
    ∀ failure ∈ x.uses us, failure.isBreach = false := by
  induction us generalizing x with
  | nil => exact nofun
  | cons u us ih =>
    obtain ⟨fails, kept⟩ := h.use u
    intro failure hm
    rcases List.mem_append.1 hm with hm | hm
    · exact fails failure (Option.mem_toList.1 hm)
    · exact ih kept failure hm

end Session

end PathRace
