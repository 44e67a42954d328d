import Mathlib
import PathRace.Proofs.Race.Flow

/-! What the consumer of a race receives, before and after the nomination. While the signal is not
noticed, a served path has its pump, or has won and ended (`Present`). With the flow of chunks this
gives what the winner's reader receives by the time the winner has ended, and that it is told of the end
(`each_path_in_order`). -/

namespace PathRace

namespace Race

/-! ### Where the pumps are -/

/-- The path that a move finds to have ended without a failure. -/
def endings (r : Race) (m : Move) : List PathId :=
  match r.taken m with
  | some (pid, .ended) => [pid]
  | _ => []

/-- The answers that a move gives to the winner's reader. -/
def answers (r : Race) : Move → List (Except Failure (Option Bytes))
  | .read => if r.hasReader then r.read.1.toList else []
  | _ => []

/-- Every served path has a pump, unless it has ended. -/
def Present (r : Race) (ended : List PathId) : Prop :=
  ∀ pid, r.Serves pid → r.isHalting = false →
    pid ∈ r.places ∨ (r.winner? = some pid ∧ pid ∈ ended)

theorem endings_pump (r : Race) (pid : PathId) (item : Option Inbound) :
    r.endings (.pump pid item) =
      if (r.taken (.pump pid item)).map Prod.snd = some .ended then [pid] else [] := by
  cases item with
  | none => rfl
  | some i =>
    simp only [endings, taken]
    split_ifs with hr he he
    · cases i <;> simp_all
    · cases i <;> simp_all
    · cases he
    · rfl

theorem endings_of_not_pump {m : Move} (hm : m.isPump = false) (r : Race) : r.endings m = [] := by
  cases m with
  | pump => cases hm
  | _ => rfl

theorem winner?_of_prune {r : Race} (table : r.pids.Nodup) {pid : PathId} {failed : Bool}
    (h : (r.prune pid failed).Serves pid) : r.winner? = some pid := by
  unfold Serves at h
  rw [(prune_keeps pid failed r).2.2.2] at h
  cases hc : r.consumer with
  | racing =>
    rw [hc] at h
    have owned : pid ∈ r.pids.erase pid := by
      rw [← pids_prune pid failed]
      exact List.contains_iff_mem.1 h
    exact absurd rfl (table.mem_erase_iff.1 owned).1
  | nominated w backlog reader writer =>
    rw [hc] at h
    rw [← h.1]
    exact winner?_of_consumer hc
  | gone => rw [hc] at h; exact h.elim

theorem isHalting_of_failed {r : Race} (heard : r.signal.stopped = r.signal.cause.isSome)
    {w : PathId} {held : Bool} (table : r.ownership = .nominated w held) :
    (r.prune w true).isHalting = true := by
  have raised : r.prune w true =
      (if held then { r with ownership := .nominated w false }.closing [w] .normal else r).raise
        (.pathFailed w) := by
    cases held <;> simp [prune, table]
  rw [raised]
  refine isHalting_raise ?_ _
  cases held <;> exact heard

theorem Pumped.remains {r r' : Race} {q pid : PathId} {item : Option Inbound}
    (h : Pumped r q item r') (s : Seated r) (table : r.pids.Nodup) (serves : r'.Serves pid)
    (running' : r'.isHalting = false) (here : pid ∈ r.places) :
    pid ∈ r'.places ∨ (r.winner? = some pid ∧ pid = q ∧ item = some .ended) := by
  have others (hq : pid ≠ q) : pid ∈ r.reading.erase q ++ r.line.map Prod.fst := by
    rcases List.mem_append.1 here with hr | hl
    · exact List.mem_append_left _ ((List.mem_erase_of_ne hq).2 hr)
    · exact List.mem_append_right _ hl
  cases h with
  | still => exact .inl here
  | halted raised =>
    have running' : r.isHalting = false := running'
    rw [raised] at running'
    cases running'
  | delivered running reading =>
    refine .inl ?_
    rw [Race.places, List.map_append, ← List.append_assoc]
    by_cases hq : pid = q
    · exact List.mem_append_right _ (by simp [hq])
    · exact List.mem_append_left _ (others hq)
  | ended running reading =>
    by_cases hq : pid = q
    · subst hq
      exact .inr ⟨winner?_of_prune (r := { r with reading := r.reading.erase pid }) table serves,
        rfl, rfl⟩
    · rw [places_prune]; exact .inl (others hq)
  | failed running reading =>
    by_cases hq : pid = q
    · subst hq
      have won : r.winner? = some pid :=
        winner?_of_prune (r := { r with reading := r.reading.erase pid }) table serves
      obtain ⟨held, owner, -⟩ := s.winner pid won running
      rw [isHalting_of_failed (r := { r with reading := r.reading.erase pid }) s.heard owner]
        at running'
      cases running'
    · rw [places_prune]; exact .inl (others hq)
  | granted running first free owned =>
    simpa [Race.places, first, or_assoc] using here
  | dropped running first free gone =>
    have hq : pid ≠ q := by
      rintro rfl
      have owned := s.owns_of_line running serves (by simp [first])
      rw [gone] at owned
      cases owned
    simpa [Race.places, first, hq] using here
  | deserted running nobody =>
    have busy : r.consumes = true := consumes_of_serves (r := (r.leaveLine q).raise .closed) serves
    rw [nobody] at busy
    cases busy

theorem present_after {r : Race} (s : Seated r) (table : r.pids.Nodup) {ended : List PathId}
    (h : Present r ended) (m : Move) : Present (r.after m) (ended ++ r.endings m) := by
  intro pid serves running'
  have running := isHalting_mono (later_after m r) running'
  rcases h pid (serves_before s serves) running with here | ⟨hw, he⟩
  · cases hm : m.isPump with
    | false => rw [(moved_after s hm).places]; exact .inl here
    | true =>
      obtain ⟨q, item, rfl⟩ := pump_of_isPump hm
      refine ((pumped_after r q item).remains s table serves running' here).imp_right ?_
      rintro ⟨hw, rfl, taken⟩
      exact ⟨winner?_after s hw _, List.mem_append_right _ (by simp [endings_pump, taken])⟩
  · exact .inr ⟨winner?_after s hw m, List.mem_append_left _ he⟩

theorem gone_after {r : Race} (s : Seated r) {ended : List PathId}
    (h : ∀ pid ∈ ended, pid ∉ r.places) (m : Move) :
    ∀ pid ∈ ended ++ r.endings m, pid ∉ (r.after m).places := by
  intro pid he
  cases hm : m.isPump with
  | false =>
    rw [endings_of_not_pump hm, List.append_nil] at he
    rw [(moved_after s hm).places]
    exact h pid he
  | true =>
    obtain ⟨q, item, rfl⟩ := pump_of_isPump hm
    have pumped := pumped_after r q item
    rcases List.mem_append.1 he with he | he
    · exact fun here => h pid he (pumped.places.subset here)
    · rw [endings_pump] at he
      split_ifs at he with taken
      · obtain rfl : pid = q := by simpa using he
        rw [taken] at pumped
        revert pumped
        generalize r.after (.pump pid item) = r'
        intro pumped
        cases pumped with
        | ended running reading => rw [places_prune]; exact s.left reading
      · cases he

theorem honest_answers {r : Race} (s : Seated r) (m : Move) (phase : Phase) (pid : PathId)
    (reason : String) : .error (.protocolViolation phase pid reason) ∉ r.answers m := by
  cases m with
  | read =>
    simp only [answers]
    split_ifs with hr
    · obtain ⟨w, -, reads⟩ := s.reads hr
      revert reads
      generalize r.read.1 = answer
      generalize r.read.2 = r'
      intro reads
      cases reads with
      | @stopped cause => cases cause <;> simp [Failure.ofCause]
      | kept | next | ended | waits => simp
    · exact List.not_mem_nil
  | _ => exact List.not_mem_nil

/-! ### After the end of the winner -/

/-- A bound on the moves the pumps can still make if none of their chunks reaches the consumer. -/
def stir (r : Race) : Nat := 2 * r.reading.length + r.line.length

theorem stir_deliver {r : Race} {pid : PathId} (reading : pid ∈ r.reading) (item : Inbound) :
    (r.deliver pid item).stir < r.stir := by
  have shorter : (r.reading.erase pid).length < r.reading.length := by
    rw [List.length_erase_of_mem reading]
    have := List.length_pos_of_mem reading
    omega
  have pruned (failed : Bool) :
      (prune pid failed { r with reading := r.reading.erase pid }).stir < r.stir := by
    obtain ⟨hr, hl, -, -⟩ := prune_keeps pid failed { r with reading := r.reading.erase pid }
    rw [stir, stir, hr, hl]
    dsimp only
    omega
  cases item with
  | chunk data =>
    simp only [deliver, stir, List.length_append, List.length_singleton]
    omega
  | ended => exact pruned false
  | failed fault => exact pruned true

/-- After the winner has ended, every move of another pump lowers `stir`. -/
theorem stir_pump {r : Race} (s : Seated r) {w : PathId} (hw : r.winner? = some w)
    (gone : w ∉ r.places) (reader : r.hasReader = true) (running : r.isHalting = false)
    {pid : PathId} {item : Option Inbound} (can : r.canPump pid item.isSome = true) :
    (r.after (.pump pid item)).stir < r.stir := by
  have consumes : r.consumes = true := by
    obtain ⟨v, backlog, writer, hc⟩ := hasReader_iff.1 reader
    simp [Race.consumes, hc]
  -- the pump that can move is the first in line
  have first (h : r.canGrant pid = true) : ∃ data rest, r.line = (pid, data) :: rest := by
    obtain ⟨data, rest, line, -⟩ := line_of_canGrant consumes h
    exact ⟨data, rest, line⟩
  simp only [after, can, if_true, pump, running, Bool.false_eq_true, if_false]
  by_cases reading : pid ∈ r.reading
  · rw [if_pos (List.contains_iff_mem.2 reading)]
    cases item with
    | some item => exact stir_deliver reading item
    | none =>
      obtain ⟨data, rest, line⟩ := first (by simpa [canPump, running] using can)
      have apart := (List.nodup_append.1 s.distinct).2.2 pid reading pid (by simp [line])
      exact absurd rfl apart
  · obtain ⟨data, rest, line⟩ := first (by simpa [canPump, running, reading] using can)
    rw [if_neg (by simpa using reading)]
    have unowned : r.owns pid = false := by
      cases ho : r.owns pid with
      | false => rfl
      | true =>
        obtain rfl := s.owned hw running ho
        exact absurd (List.mem_append_right _ (by simp [line])) gone
    have dropped : r.grant pid = { r with line := rest } := by simp [grant, consumes, line, unowned]
    rw [dropped, stir, stir, line, List.length_cons]
    dsimp only
    omega

/-! ### A whole run -/

/-- A race, with what its paths have delivered and its consumer has got so far. -/
structure Tape where
  race : Race
  delivered : List (PathId × Bytes)
  yielded : List (PathId × Bytes)
  /-- The paths that have ended without a failure. -/
  ended : List PathId
  /-- The answers given to the winner's reader. -/
  told : List (Except Failure (Option Bytes))

namespace Tape

def opened (before : List Cause) (pids : List PathId) : Tape :=
  ⟨(start before pids).2, [], [], [], []⟩

def after (t : Tape) (m : Move) : Tape where
  race := t.race.after m
  delivered := t.delivered ++ t.race.inflow m
  yielded := t.yielded ++ t.race.outflow m
  ended := t.ended ++ t.race.endings m
  told := t.told ++ t.race.answers m

def run (t : Tape) (ms : List Move) : Tape := ms.foldl after t

end Tape

/-- The invariant of runs from the start of a race. -/
structure Intact (t : Tape) : Prop where
  seated : Seated t.race
  table : t.race.pids.Nodup
  passes : ∀ pid, Passes t.race pid (chunksOf pid t.yielded) (chunksOf pid t.delivered)
  present : Present t.race t.ended
  gone : ∀ pid ∈ t.ended, pid ∉ t.race.places
  honest : ∀ phase pid reason, .error (.protocolViolation phase pid reason) ∉ t.told

theorem Intact.after {t : Tape} (h : Intact t) (m : Move) : Intact (t.after m) where
  seated := seated_after h.seated m
  table := (sublist_pids_after h.seated m).nodup h.table
  passes pid := by
    simpa only [Tape.after, chunksOf_append] using passes_after h.seated (h.passes pid) m
  present := present_after h.seated h.table h.present m
  gone := gone_after h.seated h.gone m
  honest phase pid reason hm := by
    rcases List.mem_append.1 hm with hm | hm
    · exact h.honest phase pid reason hm
    · exact honest_answers h.seated m phase pid reason hm

theorem Intact.run {t : Tape} (h : Intact t) (ms : List Move) : Intact (t.run ms) := by
  induction ms generalizing t with
  | nil => exact h
  | cons m ms ih => exact ih (h.after m)

theorem intact_of_still {r : Race} (heard : r.signal.stopped = r.signal.cause.isSome)
    (slot : r.slot = none) (line : r.line = []) (winner : r.winner? = none)
    (reading : r.reading.Nodup) (table : r.pids.Nodup)
    (present : ∀ pid, r.Serves pid → pid ∈ r.reading) : Intact ⟨r, [], [], [], []⟩ where
  seated :=
    { heard
      distinct := by simpa [places, line] using reading
      slot := by intro w hw; rw [winner] at hw; cases hw
      winner := by intro w hw; rw [winner] at hw; cases hw }
  table := table
  passes pid :=
    have front : r.front pid = [] := by
      unfold winner? at winner
      unfold Race.front backlogOf
      cases hc : r.consumer with
      | nominated w backlog reader writer => rw [hc] at winner; cases winner
      | racing | gone => simp [slot]
    { within := List.prefix_refl _
      ahead := fun _ => by simp [front]
      whole := fun _ _ => by simp [front, queued, line] }
  present pid serves _ := .inl (List.mem_append_left _ (present pid serves))
  gone := by simp
  honest := by simp

theorem intact_opened (before : List Cause) (pids : List PathId) :
    Intact (Tape.opened before pids) := by
  have quiet : (before.foldl (fun r c => r.raise c) idle).signal.stopped =
      (before.foldl (fun r c => r.raise c) idle).signal.cause.isSome :=
    (later_foldl_raise before idle).signal.stopped rfl
  unfold Tape.opened start enter
  rw [foldl_raise before idle]
  revert quiet
  generalize (before.foldl (fun r c => r.raise c) idle).signal = signal
  intro quiet
  split_ifs
  · exact intact_of_still quiet rfl rfl rfl List.nodup_nil List.nodup_nil (by simp [Serves, idle])
  · cases hf : firstRepeated [] pids with
    | some pid =>
      exact intact_of_still quiet rfl rfl rfl List.nodup_nil List.nodup_nil
        (by simp [Serves, idle, closing])
    | none =>
      have nodup := ((firstRepeated_eq_none_iff [] pids).1 hf).1
      refine intact_of_still quiet rfl rfl rfl nodup ?_ ?_
      · exact (List.mergeSort_perm pids (· ≤ ·)).nodup_iff.2 nodup
      · intro pid owned
        have owned : pid ∈ pids.mergeSort (· ≤ ·) := List.contains_iff_mem.1 owned
        exact (List.mergeSort_perm pids (· ≤ ·)).mem_iff.1 owned

/-! ### The reader of the winner -/

theorem serves_of_winner {r : Race} {w : PathId} (hw : r.winner? = some w)
    (reader : r.hasReader = true) : r.Serves w := by
  obtain ⟨v, backlog, writer, hc⟩ := hasReader_iff.1 reader
  obtain rfl : v = w := by simpa [winner?, hc] using hw
  simp [Serves, hc]

/-- A read that reports the end of the winner leaves nothing behind. -/
theorem Intact.end_read {t : Tape} (h : Intact t) {w : PathId} (hw : t.race.winner? = some w)
    (reader : t.race.hasReader = true) (quiet : t.race.signal.cause = none)
    (answer : t.race.read.1 = some (.ok none)) :
    w ∈ t.ended ∧ chunksOf w t.yielded = chunksOf w t.delivered := by
  have running : t.race.isHalting = false := by
    rw [isHalting_eq, h.seated.heard, quiet]; rfl
  have served := serves_of_winner hw reader
  have whole := (h.passes w).whole served running
  have present := h.present w served running
  obtain ⟨v, hv, reads⟩ := h.seated.reads reader
  obtain rfl : v = w := Option.some.inj (hv.symm.trans hw)
  rw [answer] at reads
  generalize t.race.read.2 = r' at reads
  cases reads with
  | ended consumer _ slot dry =>
    obtain ⟨no_reader, no_line⟩ : t.race.reading = [] ∧ t.race.line = [] := by
      simpa [isDry] using dry
    have empty : t.race.front v ++ t.race.queued v = [] := by
      simp [front, backlogOf, consumer, slot, queued, no_line]
    refine ⟨(present.resolve_left ?_).2, ?_⟩
    · simp [places, no_reader, no_line]
    · rw [← whole, empty, List.append_nil]

theorem Intact.front_eq {t : Tape} (h : Intact t) {w : PathId} (hw : t.race.winner? = some w)
    (reader : t.race.hasReader = true) (running : t.race.isHalting = false) (ended : w ∈ t.ended) :
    chunksOf w t.yielded ++ t.race.front w = chunksOf w t.delivered := by
  have nothing : t.race.queued w = [] :=
    chunksOf_eq_nil fun hm => h.gone w ended (List.mem_append_right _ hm)
  simpa [nothing] using (h.passes w).whole (serves_of_winner hw reader) running

theorem Reads.of_front {r r' : Race} {w : PathId} {answer : Option (Except Failure (Option Bytes))}
    (h : Reads r w answer r') (running : r.isHalting = false) {data : Bytes} {rest : List Bytes}
    (front : r.front w = data :: rest) : answer = some (.ok (some data)) := by
  cases h with
  | kept consumer =>
    simp only [Race.front, backlogOf, consumer, if_true, List.cons_append, List.cons.injEq] at front
    rw [front.1]
  | next consumer _ slot =>
    simp only [Race.front, backlogOf, consumer, slot, if_true, List.nil_append, Option.toList_some,
      chunksOf_self, List.cons.injEq] at front
    rw [front.1]
  | stopped consumer raised => simp [isHalting, raised] at running
  | ended consumer _ slot | waits consumer _ slot =>
    simp [Race.front, backlogOf, consumer, slot] at front

theorem line_nil_of_rest {r : Race} (consumes : r.consumes = true) (slot : r.slot = none)
    {readable : Bool} (rest : ∀ pid, r.canPump pid readable = false) : r.line = [] := by
  cases hl : r.line with
  | nil => rfl
  | cons e line =>
    have rest := rest e.1
    simp [canPump, canGrant, hl, consumes, slot] at rest

theorem Reads.of_rest {r r' : Race} {w : PathId} {answer : Option (Except Failure (Option Bytes))}
    (h : Reads r w answer r') (running : r.isHalting = false) (front : r.front w = [])
    (rest : ∀ pid, r.canPump pid true = false) : answer = some (.ok none) := by
  cases h with
  | kept consumer => simp [Race.front, backlogOf, consumer] at front
  | next consumer _ slot => simp [Race.front, backlogOf, consumer, slot] at front
  | stopped consumer raised => simp [isHalting, raised] at running
  | ended => rfl
  | waits consumer _ slot dry =>
    have no_reader : r.reading = [] := by
      refine List.eq_nil_iff_forall_not_mem.2 fun pid hm => ?_
      have rest := rest pid
      simp [canPump, hm] at rest
    have no_line := line_nil_of_rest (by simp [Race.consumes, consumer]) slot rest
    simp [isDry, no_reader, no_line] at dry

/-- Of every path the consumer gets a prefix of what the path has delivered, in one sequence across the
nomination, and the winner's reader gets nothing of another path. If the winner has ended while the
signal is quiet, reads first give what is left without waiting; then they wait only for the pumps of
other paths, whose moves lower `stir`; then they report the end, which they never do earlier. A receive
that is cancelled while it waits has changed nothing. -/
theorem each_path_in_order (before : List Cause) (pids : List PathId) (ms : List Move) :
    let t := (Tape.opened before pids).run ms
    (∀ pid, chunksOf pid t.yielded <+: chunksOf pid t.delivered) ∧
    (∀ phase pid reason, .error (.protocolViolation phase pid reason) ∉ t.told) ∧
    ∀ w, t.race.winner? = some w → t.race.hasReader = true → t.race.signal.cause = none →
      (t.race.read.1 = some (.ok none) →
        w ∈ t.ended ∧ chunksOf w t.yielded = chunksOf w t.delivered) ∧
      (w ∈ t.ended →
        (∀ data rest, chunksOf w t.delivered = chunksOf w t.yielded ++ data :: rest →
          t.race.read.1 = some (.ok (some data))) ∧
        (chunksOf w t.delivered = chunksOf w t.yielded → (∀ pid, t.race.canPump pid true = false) →
          t.race.read.1 = some (.ok none)) ∧
        ∀ pid item, t.race.canPump pid item.isSome = true →
          (t.race.after (.pump pid item)).stir < t.race.stir) := by
  intro t
  have h : Intact t := (intact_opened before pids).run ms
  refine ⟨fun pid => (h.passes pid).within, h.honest, fun w hw reader quiet => ?_⟩
  have running : t.race.isHalting = false := by
    rw [isHalting_eq, h.seated.heard, quiet]; rfl
  refine ⟨h.end_read hw reader quiet, fun ended => ?_⟩
  have left := h.front_eq hw reader running ended
  obtain ⟨v, hv, reads⟩ := h.seated.reads reader
  obtain rfl : v = w := Option.some.inj (hv.symm.trans hw)
  refine ⟨fun data rest more => ?_, fun all rest => ?_, fun pid item can => ?_⟩
  · rw [more] at left
    exact reads.of_front running (List.append_cancel_left left)
  · rw [all] at left
    exact reads.of_rest running (by simpa using left) rest
  · exact stir_pump h.seated hw (h.gone v ended) reader running can

/-- The first path has a chunk in the slot when it is nominated, and then ends; the second waits in line
with a chunk of its own. -/
def contested : List Move :=
  [.pump 5 (some (.chunk [1])), .pump 5 none, .pump 3 (some (.chunk [2])), .nominate 5,
    .pump 5 (some .ended)]

theorem each_path_in_order_contested :
    (let t := (Tape.opened [] [5, 3]).run contested
     t.race.read.1 = some (.ok (some [1]))) ∧
    (let t := (Tape.opened [] [5, 3]).run (contested ++ [.read])
     (t.race.after (.pump 3 none)).stir < t.race.stir) ∧
    (let t := (Tape.opened [] [5, 3]).run (contested ++ [.read, .pump 3 none])
     t.race.read.1 = some (.ok none) ∧ chunksOf 5 t.yielded = chunksOf 5 t.delivered) := by
  obtain ⟨-, -, left⟩ := each_path_in_order [] [5, 3] contested
  obtain ⟨-, -, stirred⟩ := each_path_in_order [] [5, 3] (contested ++ [.read])
  obtain ⟨-, -, final⟩ := each_path_in_order [] [5, 3] (contested ++ [.read, .pump 3 none])
  obtain ⟨-, left⟩ := left 5 (by cbv) (by cbv) (by cbv)
  obtain ⟨-, stirred⟩ := stirred 5 (by cbv) (by cbv) (by cbv)
  obtain ⟨last, final⟩ := final 5 (by cbv) (by cbv) (by cbv)
  have next := (left (List.contains_iff_mem.1 (by cbv))).1 [1] [] (by cbv)
  have closer := (stirred (List.contains_iff_mem.1 (by cbv))).2.2 3 none (by cbv)
  have nothing := (final (List.contains_iff_mem.1 (by cbv))).2.1 (by cbv) fun pid => by cbv
  exact ⟨next, closer, nothing, (last nothing).2⟩

end Race

end PathRace
