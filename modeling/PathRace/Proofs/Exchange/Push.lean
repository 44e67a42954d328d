import PathRace.Proofs.Exchange.Turn

/-! Bytes that arrive after a complete frame do not affect how it is processed (`processFrame_push`), so
the result does not depend on how the bytes are cut into chunks. -/

namespace PathRace

namespace Reassembly

variable {r r' : Reassembly}

theorem announced_push (h : ¬ r.buffer.length < Limit.lengthSize) (more : Bytes) :
    (r.push more).announced = r.announced := by
  rw [announced, push, List.take_append_of_le_length (not_lt.1 h), announced]

theorem next_push_some {c : Bytes} (h : r.next = (.ok (some c), r')) (more : Bytes) :
    (r.push more).next = (.ok (some c), r'.push more) := by
  unfold next at h
  split_ifs at h with start long whole
  · simp at h
  · simp at h
  · simp at h
  · obtain ⟨rfl, rfl⟩ : _ = c ∧ _ = r' := by simpa using h
    have announced := announced_push start more
    have length : (r.push more).buffer.length = r.buffer.length + more.length := List.length_append
    have rest : (r.push more).buffer.drop Limit.lengthSize =
        r.buffer.drop Limit.lengthSize ++ more := List.drop_append_of_le_length (not_lt.1 start)
    have within : r.announced ≤ (r.buffer.drop Limit.lengthSize).length := by
      rw [List.length_drop]; omega
    rw [next, if_neg (by omega), announced, if_neg long, if_neg (by omega), rest]
    simp [List.take_append_of_le_length within, List.drop_append_of_le_length within, push]

theorem next_push_error {fault : EngineFault} (h : r.next = (.error fault, r')) (more : Bytes) :
    (r.push more).next = (.error fault, r.push more) := by
  unfold next at h
  split_ifs at h with start long whole
  · simp at h
  · obtain ⟨rfl, -⟩ : _ = fault ∧ _ := by simpa using h
    have announced := announced_push start more
    have length : (r.push more).buffer.length = r.buffer.length + more.length := List.length_append
    rw [next, if_neg (by omega), announced, if_pos long]
  · simp at h
  · simp at h

theorem length_of_next_some {c : Bytes} (h : r.next = (.ok (some c), r')) :
    r'.buffer.length + Limit.lengthSize ≤ r.buffer.length := by
  unfold next at h
  split_ifs at h with start long whole
  · simp at h
  · simp at h
  · simp at h
  · obtain ⟨-, rfl⟩ : _ ∧ _ = r' := by simpa using h
    simp only [List.length_drop]
    omega

end Reassembly

namespace Exchange

variable {S : Suite} {x x' : Exchange S} {pid : PathId} {inbox : Reassembly} {stage : Stage}

def push (pid : PathId) (more : Bytes) (x : Exchange S) : Exchange S := (x.addChunk pid more).2

theorem push_of_none (hs : x.strand? pid = none) (more : Bytes) : x.push pid more = x := by
  simp [push, addChunk, hs]

theorem push_of_some (hs : x.strand? pid = some ⟨inbox, stage⟩) (more : Bytes) :
    x.push pid more = x.put pid ⟨inbox.push more, stage⟩ := by
  simp [push, addChunk, hs]

@[simp] theorem device_push (x : Exchange S) (pid : PathId) (more : Bytes) :
    (x.push pid more).device = x.device := by
  unfold push addChunk
  split <;> rfl

@[simp] theorem nominated_push (x : Exchange S) (pid : PathId) (more : Bytes) :
    (x.push pid more).nominated = x.nominated := by
  unfold push addChunk
  split <;> rfl

theorem put_put (x : Exchange S) (pid : PathId) (a b : Strand) : (x.put pid a).put pid b = x.put pid b := by
  simp only [put, List.map_map]
  congr 1
  apply List.map_congr_left
  intro e _
  by_cases he : e.1 = pid <;> simp [he]

theorem put_settle (x : Exchange S) (pid : PathId) (a : Strand) :
    (x.settle pid).put pid a = (x.put pid a).settle pid := by
  simp only [put, settle, List.filter_map]
  congr 2
  apply List.filter_congr
  intro e _
  by_cases he : e.1 = pid <;> simp [he]

theorem strand?_push (hs : x.strand? pid = some ⟨inbox, stage⟩) (more : Bytes) :
    (x.push pid more).strand? pid = some ⟨inbox.push more, stage⟩ := by
  rw [push_of_some hs, strand?_put hs, if_pos rfl]

theorem push_push (x : Exchange S) (pid : PathId) (a b : Bytes) :
    (x.push pid a).push pid b = x.push pid (a ++ b) := by
  cases hs : x.strand? pid with
  | none => rw [push_of_none hs, push_of_none hs, push_of_none hs]
  | some strand =>
    obtain ⟨inbox, stage⟩ := strand
    rw [push_of_some (strand?_push hs a), push_of_some hs, push_of_some hs, put_put]
    simp [Reassembly.push]

theorem push_took (hs : x.strand? pid = some ⟨inbox, stage⟩) (inbox' : Reassembly) (stage' : Stage)
    (used : List Sealing) (more : Bytes) :
    (x.took pid ⟨inbox', stage'⟩ used).push pid more =
      (x.push pid more).took pid ⟨inbox'.push more, stage'⟩ used := by
  have after : (x.took pid ⟨inbox', stage'⟩ used).strand? pid = some ⟨inbox', stage'⟩ :=
    (turned_took hs used).after
  have put : ((x.put pid ⟨inbox.push more, stage⟩).record used).put pid ⟨inbox'.push more, stage'⟩ =
      (x.record used).put pid ⟨inbox'.push more, stage'⟩ := put_put (x.record used) ..
  rw [push_of_some after, push_of_some hs]
  unfold took
  dsimp only
  rw [put]
  have named (y : Strand) : ((x.record used).put pid y).nominated = x.nominated := rfl
  rw [named, named]
  split_ifs
  · rw [put_settle, put_put]
  · rw [put_put]

theorem processFrame_push_some {now : Nat} {s s' : Entropy} {o : Outcome}
    (h : x.processFrame pid now s = (.ok (some o), x', s')) (more : Bytes) :
    (x.push pid more).processFrame pid now s = (.ok (some o), x'.push pid more, s') := by
  unfold processFrame at h
  cases hs : x.strand? pid with
  | none => simp [hs] at h
  | some strand =>
    obtain ⟨inbox, stage⟩ := strand
    rcases next : inbox.next with ⟨fault | _ | c, inbox'⟩
    · simp [hs, next] at h
    · simp [hs, next] at h
    · cases hr : (x.device.step S pid now stage c s).result with
      | error fault => simp [hs, next, hr] at h
      | ok result =>
        obtain ⟨stage', o'⟩ := result
        have took : x' = x.took pid ⟨inbox', stage'⟩ (x.device.step S pid now stage c s).used := by
          simp only [hs, next, hr, Prod.mk.injEq] at h
          exact h.2.1.symm
        have outcome : o' = o ∧ (x.device.step S pid now stage c s).entropy = s' := by
          simp only [hs, next, hr, Prod.mk.injEq, Except.ok.injEq, Option.some.injEq] at h
          exact ⟨h.1, h.2.2⟩
        rw [took, push_took hs]
        unfold processFrame
        simp only [strand?_push hs, Reassembly.next_push_some next, device_push, hr, outcome]
        rfl

theorem processFrame_push_error {now : Nat} {s s' : Entropy} {fault : EngineFault}
    (h : x.processFrame pid now s = (.error fault, x', s')) (more : Bytes) :
    ((x.push pid more).processFrame pid now s).1 = .error fault := by
  unfold processFrame at h
  cases hs : x.strand? pid with
  | none =>
    rw [push_of_none hs]
    simpa [processFrame, hs] using congrArg Prod.fst h
  | some strand =>
    obtain ⟨inbox, stage⟩ := strand
    unfold processFrame
    rcases next : inbox.next with ⟨fault' | _ | c, inbox'⟩
    · simp only [strand?_push hs, Reassembly.next_push_error next]
      simpa [hs, next] using congrArg Prod.fst h
    · simp [hs, next] at h
    · simp only [strand?_push hs, Reassembly.next_push_some next, device_push]
      cases hr : (x.device.step S pid now stage c s).result with
      | error fault' => simpa [hs, next, hr] using congrArg Prod.fst h
      | ok result => simp [hs, next, hr] at h

theorem processFrame_push_nil {now : Nat} {s s' : Entropy}
    (h : x.processFrame pid now s = (.ok none, x', s')) :
    ((x.push pid []).processFrame pid now s).1 = .ok none := by
  cases hs : x.strand? pid with
  | none => rw [push_of_none hs, h]
  | some strand =>
    obtain ⟨inbox, stage⟩ := strand
    have same : inbox.push [] = inbox := congrArg Reassembly.mk (List.append_nil inbox.buffer)
    unfold processFrame at h ⊢
    rw [strand?_push hs, same]
    rcases next : inbox.next with ⟨fault | _ | c, inbox'⟩
    · simp [hs, next] at h
    · simp only [next]
    · cases hr : (x.device.step S pid now stage c s).result <;> simp [hs, next, hr] at h

theorem nominate_push (x : Exchange S) (pid : PathId) (more : Bytes) :
    (x.push pid more).nominate pid = ((x.nominate pid).1, (x.nominate pid).2.push pid more) := by
  cases hs : x.strand? pid with
  | none =>
    have still : (x.nominate pid).2 = x := by simp only [nominate, hs]; split_ifs <;> rfl
    rw [push_of_none hs, still, push_of_none hs]
    exact Prod.ext rfl still
  | some strand =>
    obtain ⟨inbox, stage⟩ := strand
    have put (a : Strand) (used : List Sealing) :
        ((x.push pid more).record used).put pid a = (x.record used).put pid a := by
      rw [push_of_some hs]
      exact put_put (x.record used) ..
    have after (a : Stage) (used : List Sealing) :
        ((x.record used).put pid ⟨inbox, a⟩).strand? pid = some ⟨inbox, a⟩ := by
      rw [strand?_put (x := x.record used) hs, if_pos rfl]
    simp only [nominate, device_push, nominated_push, strand?_push hs, hs, put]
    cases stage with
    | ready transport =>
      split_ifs
      · rfl
      · dsimp only
        cases (transport.tx.send S .nominate).frame with
        | error fault =>
          dsimp only
          rw [push_of_some (after ..), put_put]
        | ok frame =>
          have settled := strand?_settle (after (.nominated { transport with
            tx := (transport.tx.send S .nominate).lane }) (transport.tx.send S .nominate).used) pid
          rw [if_pos rfl] at settled
          dsimp only
          rw [push_of_some settled, put_settle, put_put]
      · rfl
    | _ => split_ifs <;> rfl

/-! ### Frames run out -/

instance : Engine.Finite (Exchange S) where
  pending_lt pid now x s o x' s' h := by
    obtain ⟨old, new, used, deed, turned⟩ := turned_of_processFrame h
    show x'.buffered pid / Limit.lengthSize < x.buffered pid / Limit.lengthSize
    rw [buffered_of_strand? turned.before, buffered_of_strand? turned.after]
    cases deed with
    | took next =>
      have shorter := Reassembly.length_of_next_some next
      simp only [Limit.lengthSize] at shorter ⊢
      omega

theorem buffered_put {x : Exchange S} {pid : PathId} {inbox : Reassembly} {stage : Stage}
    (hs : x.strand? pid = some ⟨inbox, stage⟩) (stage' : Stage) (q : PathId) :
    (x.put pid ⟨inbox, stage'⟩).buffered q = x.buffered q := by
  by_cases hq : q = pid
  · subst hq
    have after : (x.put q ⟨inbox, stage'⟩).strand? q = some ⟨inbox, stage'⟩ := by
      rw [strand?_put hs, if_pos rfl]
    rw [buffered_of_strand? hs, buffered_of_strand? after]
  · simp only [buffered, put, lookup_put, if_neg hq]

theorem buffered_settle_le (x : Exchange S) (pid q : PathId) :
    (x.settle pid).buffered q ≤ x.buffered q := by
  simp only [buffered, settle, lookup_settle]
  split_ifs with hq
  · rw [hq]
  · exact Nat.zero_le _

/-- A nomination leaves the bytes of its path in place and drops those of the others. -/
theorem buffered_nominate_le (x : Exchange S) (pid q : PathId) :
    (x.nominate pid).2.buffered q ≤ x.buffered q := by
  have after : (x.call (.nominate pid)).2 = (x.nominate pid).2 := rfl
  rw [← after]
  rcases nominate_cases x pid with ⟨fault, he⟩ | ⟨inbox, transport, hs, -, -, he⟩ |
    ⟨inbox, transport, hs, -, -, he⟩ <;> rw [he]
  · exact (buffered_put hs _ q).le
  · exact (buffered_settle_le _ pid q).trans (buffered_put (x := x.record _) hs _ q).le

end Exchange

end PathRace
