import PathRace.Proofs.Race.Moves

/-! Which paths are closed, and why. The closed paths and the owned paths together are a permutation of
the paths given to the race (`Kept`), so no path is closed twice, and every path is closed once the
watcher has run. `Closing` lists the reasons for a close (`justified_of_nodup`). -/

namespace PathRace

def Inbound.isLast : Inbound → Bool
  | .chunk _ => false
  | .ended | .failed _ => true

namespace Race

/-- The paths that have been closed and those that are still owned. -/
def accounted (r : Race) : List PathId := r.closes.map Prod.fst ++ r.pids

/-- The reasons for which a move closes a path. -/
inductive Closing (r : Race) : Move → PathId → CloseReason → Prop
  /-- A nomination closes the other paths even if its own path has left the race. -/
  | lost {winner pid : PathId} {pids : List PathId} (racing : r.isRacing = true)
      (table : r.ownership = .racing pids) (mem : pid ∈ pids) (ne : pid ≠ winner) :
      Closing r (.nominate winner) pid .normal
  | unreadable {pid : PathId} {item : Inbound} (running : r.isHalting = false)
      (reading : pid ∈ r.reading) (last : item.isLast = true) (owned : pid ∈ r.pids) :
      Closing r (.pump pid (some item)) pid .normal
  | unwritable {pid : PathId} (racing : r.isRacing = true) (owned : pid ∈ r.pids) :
      Closing r (.failWrite pid) pid .normal
  | swept {pid : PathId} {cause : Cause} (watching : r.watching = true)
      (raised : r.signal.heard = some cause) (owned : pid ∈ r.pids) :
      Closing r .sweep pid (.ofCause cause)

theorem SameTable.accounted {r r' : Race} (h : SameTable r r') : r'.accounted = r.accounted := by
  simp only [Race.accounted, h.closes, h.pids]

theorem closes_closing (pids : List PathId) (reason : CloseReason) (r : Race) :
    (r.closing pids reason).closes = r.closes ++ pids.map (·, reason) := rfl

/-! ### A path that ends or fails -/

theorem closes_prune (pid : PathId) (failed : Bool) (r : Race) :
    (r.prune pid failed).closes = r.closes ++ if pid ∈ r.pids then [(pid, .normal)] else [] := by
  unfold prune Race.pids
  cases r.ownership with
  | racing pids =>
    by_cases h : pid ∈ pids
    · simp only [List.contains_iff_mem.2 h, h, if_true]
      split_ifs <;> rfl
    · simp [h]
  | nominated winner held =>
    by_cases hw : winner = pid
    · subst hw
      cases held <;> cases failed <;> simp [raise, closing]
    · have hp : pid ≠ winner := fun h => hw h.symm
      cases held <;> simp [hw, hp]
  | released => simp

theorem pids_prune (pid : PathId) (failed : Bool) (r : Race) :
    (r.prune pid failed).pids = r.pids.erase pid := by
  unfold prune
  cases h : r.ownership with
  | racing pids =>
    by_cases hm : pid ∈ pids
    · simp only [List.contains_iff_mem.2 hm, if_true]
      split_ifs with hr
      · simp [Race.pids, raise, h, hr]
      · simp [Race.pids, h]
    · simp [Race.pids, h, hm, List.erase_of_not_mem]
  | nominated winner held =>
    by_cases hw : winner = pid
    · subst hw
      cases held <;> cases failed <;> simp [Race.pids, raise, closing, h]
    · cases held <;> simp [Race.pids, h, hw, List.erase_cons_tail]
  | released => simp [Race.pids, h]

theorem accounted_prune (pid : PathId) (failed : Bool) (r : Race) :
    (r.prune pid failed).accounted.Perm r.accounted := by
  unfold accounted
  rw [closes_prune, pids_prune]
  by_cases h : pid ∈ r.pids
  · simpa [h] using (List.perm_cons_erase h).symm.append_left (r.closes.map Prod.fst)
  · simp [h, List.erase_of_not_mem]

theorem watching_prune (pid : PathId) (failed : Bool) (r : Race) :
    (r.prune pid failed).watching = r.watching := by
  unfold prune
  split
  · dsimp only
    split_ifs <;> rfl
  · dsimp only
    split_ifs <;> rfl
  · rfl

theorem signal_prune (pid : PathId) (failed : Bool) (r : Race) :
    r.signal.Later (r.prune pid failed).signal := by
  unfold prune
  split
  · dsimp only
    split_ifs
    · exact .raised .noPathsRemaining _
    all_goals exact .refl _
  · rename_i winner held ho
    dsimp only
    split_ifs
    · exact .raised (.pathFailed pid) _
    · exact .raised (.pathFailed pid) _
    all_goals exact .refl _
  · exact .refl _

/-! ### The nomination -/

/-- The race after a nomination has closed all paths but `pid`. -/
def decided (pid : PathId) (pids : List PathId) (r : Race) : Race :=
  { r.closing (pids.erase pid) .normal with
    ownership := if pid ∈ pids then .nominated pid true else .released }

theorem nominate_cases (pid : PathId) (r : Race) :
    (∃ pids, r.ownership = .racing pids ∧ pid ∈ pids ∧ r.holdsWriter pid = true ∧
      r.nominate pid = (.ok (), { r.decided pid pids with
        slot := none
        consumer := .nominated pid ((r.slot.toList.filter (·.1 == pid)).map Prod.snd) true true
        writers := [pid] })) ∨
    (∃ pids, r.ownership = .racing pids ∧ ¬(pid ∈ pids ∧ r.holdsWriter pid = true) ∧
      r.nominate pid = (.error (.nominatedPathLost pid),
        ((r.decided pid pids).raise (.pathFailed pid)).abandon)) ∨
    ((∀ pids, r.ownership ≠ .racing pids) ∧
      r.nominate pid = (.error (.ofCause (r.signal.cause.getD .closed)), r.abandon)) := by
  cases ho : r.ownership with
  | racing pids =>
    by_cases h : pid ∈ pids ∧ r.holdsWriter pid = true
    · have hw : pid ∈ r.writers := by simpa [holdsWriter] using h.2
      exact .inl ⟨pids, rfl, h.1, h.2, by simp [nominate, ho, h.1, holdsWriter, hw, decided, closing]⟩
    · refine .inr (.inl ⟨pids, rfl, h, ?_⟩)
      by_cases hm : pid ∈ pids
      · have hw : pid ∉ r.writers := by simpa [holdsWriter, hm] using h
        simp [nominate, ho, hm, holdsWriter, hw, decided, closing]
      · simp [nominate, ho, hm, decided, closing]
  | nominated winner held => exact .inr (.inr ⟨by simp, by simp [nominate, ho]⟩)
  | released => exact .inr (.inr ⟨by simp, by simp [nominate, ho]⟩)

theorem sameTable_nominate {pid : PathId} {pids : List PathId} {r : Race}
    (h : r.ownership = .racing pids) : SameTable (r.decided pid pids) (r.nominate pid).2 := by
  rcases nominate_cases pid r with ⟨_, ho, -, -, he⟩ | ⟨_, ho, -, he⟩ | ⟨ho, -⟩
  · obtain rfl : pids = _ := by simpa [h] using ho
    rw [he]; exact ⟨rfl, rfl, rfl, .refl _⟩
  · obtain rfl : pids = _ := by simpa [h] using ho
    rw [he]; exact (sameTable_raise _ _).trans (sameTable_abandon _)
  · exact absurd h (ho pids)

theorem sameTable_nominate_of_closed {pid : PathId} {r : Race}
    (h : ∀ pids, r.ownership ≠ .racing pids) : SameTable r (r.nominate pid).2 := by
  rcases nominate_cases pid r with ⟨pids, ho, -⟩ | ⟨pids, ho, -⟩ | ⟨-, he⟩
  · exact absurd ho (h pids)
  · exact absurd ho (h pids)
  · rw [he]; exact sameTable_abandon r

theorem pids_of_nominate {pid : PathId} {r r' : Race} (h : r.nominate pid = (.ok (), r')) :
    r'.pids = [pid] := by
  rcases nominate_cases pid r with ⟨_, -, hm, -, he⟩ | ⟨_, -, -, he⟩ | ⟨-, he⟩
  · obtain ⟨-, rfl⟩ := Prod.mk.inj (h.symm.trans he)
    simp [Race.pids, decided, hm]
  all_goals simp [he] at h

theorem accounted_decided {pid : PathId} {pids : List PathId} {r : Race}
    (h : r.ownership = .racing pids) : (r.decided pid pids).accounted.Perm r.accounted := by
  simp only [accounted, Race.pids, decided, closes_closing, h, List.map_append, List.map_map,
    List.append_assoc]
  refine List.Perm.append_left _ ?_
  by_cases hm : pid ∈ pids
  · simpa [hm, Function.comp_def] using
      List.perm_append_comm.trans (List.perm_cons_erase hm).symm
  · simp [hm, List.erase_of_not_mem, Function.comp_def]

/-! ### Every move -/

/-- The invariant of a race with these paths. -/
structure Kept (pids : List PathId) (r : Race) : Prop where
  accounted : r.accounted.Perm pids
  swept : r.watching = false → r.ownership = .released
  heard : r.signal.stopped = r.signal.cause.isSome

theorem SameTable.kept {pids : List PathId} {r r' : Race} (h : SameTable r r') (k : Kept pids r) :
    Kept pids r' where
  accounted := by rw [h.accounted]; exact k.accounted
  swept hw := by rw [h.ownership]; exact k.swept (h.watching ▸ hw)
  heard := h.signal.stopped k.heard

theorem kept_prune {pids : List PathId} {r : Race} (pid : PathId) (failed : Bool)
    (k : Kept pids r) : Kept pids (r.prune pid failed) where
  accounted := (accounted_prune pid failed r).trans k.accounted
  swept hw := by
    rw [watching_prune] at hw
    simp [prune, k.swept hw]
  heard := (signal_prune pid failed r).stopped k.heard

theorem kept_nominate {pids : List PathId} {r : Race} (pid : PathId) (k : Kept pids r) :
    Kept pids (r.nominate pid).2 := by
  by_cases h : ∃ pids, r.ownership = .racing pids
  · obtain ⟨table, ho⟩ := h
    refine (sameTable_nominate ho).kept ⟨(accounted_decided ho).trans k.accounted, ?_, k.heard⟩
    intro hw
    have := k.swept hw
    simp [ho] at this
  · exact (sameTable_nominate_of_closed (not_exists.1 h)).kept k

theorem kept_sweep {pids : List PathId} {r : Race} (k : Kept pids r) : Kept pids r.sweep := by
  unfold sweep
  split
  · exact k
  · refine ⟨?_, fun _ => rfl, k.heard⟩
    simpa [Race.accounted, Race.pids, closing, Function.comp_def] using k.accounted

theorem sameTable_without_reader (pid : PathId) (r : Race) :
    SameTable r { r with reading := r.reading.erase pid } := ⟨rfl, rfl, rfl, .refl _⟩

theorem sameTable_without_writer (pid : PathId) (r : Race) :
    SameTable r { r with writers := r.writers.erase pid } := ⟨rfl, rfl, rfl, .refl _⟩

theorem kept_pump {pids : List PathId} {r : Race} (pid : PathId) (item : Option Inbound)
    (k : Kept pids r) : Kept pids (r.pump pid item) := by
  unfold pump
  split_ifs
  · exact (sameTable_halt pid r).kept k
  · cases item with
    | none => exact k
    | some item =>
      have gone := sameTable_without_reader pid r
      cases item with
      | chunk data =>
        have stays : SameTable r (r.deliver pid (.chunk data)) := ⟨rfl, rfl, rfl, .refl _⟩
        exact stays.kept k
      | ended => exact kept_prune pid false (gone.kept k)
      | failed fault => exact kept_prune pid true (gone.kept k)
  · exact (sameTable_grant pid r).kept k

def Move.canClose : Move → Bool
  | .sweep | .pump .. | .failWrite _ | .nominate _ => true
  | _ => false

theorem sameTable_after {m : Move} (h : m.canClose = false) (r : Race) :
    SameTable r (r.after m) := by
  cases m with
  | sweep | pump | failWrite | nominate => cases h
  | raise cause => exact sameTable_raise cause r
  | abandon => exact sameTable_abandon r
  | receive => simp only [after]; split_ifs; exacts [sameTable_receive r, .refl r]
  | openWrite pid => simp only [after]; split_ifs; exacts [sameTable_openWrite pid r, .refl r]
  | read => simp only [after]; split_ifs; exacts [sameTable_read r, .refl r]
  | failWinnerWrite fault =>
    simp only [after]
    split_ifs
    · cases r.winner? with
      | none => exact .refl r
      | some pid => exact sameTable_raise (.pathFailed pid) r
    · exact .refl r
  | dropReader => simp only [after]; split_ifs; exacts [sameTable_dropReader r, .refl r]
  | dropWriter => simp only [after]; split_ifs; exacts [sameTable_dropWriter r, .refl r]

theorem later_after (m : Move) (r : Race) : r.signal.Later (r.after m).signal := by
  cases m with
  | sweep =>
    simp only [after, sweep]
    split_ifs
    · split <;> exact .refl _
    · exact .refl _
  | pump pid item =>
    simp only [after, pump]
    split_ifs
    · exact .refl _
    · cases item with
      | none => exact .refl _
      | some item =>
        cases item with
        | chunk data => exact .refl _
        | ended => exact signal_prune pid false { r with reading := r.reading.erase pid }
        | failed fault => exact signal_prune pid true { r with reading := r.reading.erase pid }
    · exact (sameTable_grant pid r).signal
    · exact .refl _
  | failWrite pid =>
    simp only [after, failWrite]
    split_ifs
    · exact signal_prune pid true { r with writers := r.writers.erase pid }
    · exact .refl _
  | nominate pid =>
    simp only [after]
    split_ifs
    · by_cases h : ∃ pids, r.ownership = .racing pids
      · obtain ⟨pids, ho⟩ := h
        exact (sameTable_nominate ho).signal
      · exact (sameTable_nominate_of_closed (not_exists.1 h)).signal
    · exact .refl _
  | _ => exact (sameTable_after rfl r).signal

theorem kept_after {pids : List PathId} {r : Race} (m : Move) (k : Kept pids r) :
    Kept pids (r.after m) := by
  cases m with
  | sweep => simp only [after]; split_ifs; exacts [kept_sweep k, k]
  | pump pid item => simp only [after]; split_ifs; exacts [kept_pump pid item k, k]
  | failWrite pid =>
    simp only [after]
    split_ifs
    · exact kept_prune pid true ((sameTable_without_writer pid r).kept k)
    · exact k
  | nominate pid => simp only [after]; split_ifs; exacts [kept_nominate pid k, k]
  | _ => exact (sameTable_after rfl r).kept k

/-! ### Why a path is closed -/

/-- A move closes exactly the paths that `Closing` gives it a reason to close. -/
def Justified (r : Race) (m : Move) : Prop :=
  ∃ new, (r.after m).closes = r.closes ++ new ∧
    ∀ pid reason, (pid, reason) ∈ new ↔ Closing r m pid reason

theorem justified_of_none {r : Race} {m : Move} (hc : (r.after m).closes = r.closes)
    (hn : ∀ pid reason, ¬ Closing r m pid reason) : Justified r m :=
  ⟨[], by rw [hc, List.append_nil], fun pid reason => by simp [hn pid reason]⟩

theorem justified_sweep (r : Race) : Justified r .sweep := by
  cases hw : r.watching with
  | false =>
    refine justified_of_none (by simp [after, canSweep, hw]) fun pid reason h => ?_
    cases h with
    | swept watching => simp [hw] at watching
  | true =>
    cases hs : r.signal.heard with
    | none =>
      refine justified_of_none (by simp [after, canSweep, isHalting, hs]) fun pid reason h => ?_
      cases h with
      | swept _ raised => simp [hs] at raised
    | some cause =>
      refine ⟨r.pids.map (·, .ofCause cause), ?_, fun pid reason => ?_⟩
      · simp [after, canSweep, isHalting, hs, hw, sweep, closing]
      · simp only [List.mem_map, Prod.mk.injEq]
        constructor
        · rintro ⟨p, hp, rfl, rfl⟩
          exact .swept hw hs hp
        · intro h
          cases h with
          | swept _ raised owned =>
            obtain rfl : cause = _ := by simpa [hs] using raised
            exact ⟨pid, owned, rfl, rfl⟩

theorem justified_failWrite (pid : PathId) (r : Race) : Justified r (.failWrite pid) := by
  cases hr : r.isRacing with
  | false =>
    refine justified_of_none (by simp [after, hr]) fun pid reason h => ?_
    cases h with
    | unwritable racing => simp [hr] at racing
  | true =>
    refine ⟨if pid ∈ r.pids then [(pid, .normal)] else [], ?_, fun p reason => ?_⟩
    · have same := sameTable_without_writer pid r
      simp only [after, hr, if_true, failWrite]
      rw [closes_prune, same.closes, same.pids]
    · constructor
      · split_ifs with h
        · rintro hm
          obtain ⟨rfl, rfl⟩ : p = pid ∧ reason = .normal := by simpa using hm
          exact .unwritable hr h
        · simp
      · intro h
        cases h with
        | unwritable _ owned => simp [owned]

theorem justified_nominate (winner : PathId) (r : Race) (hn : r.pids.Nodup) :
    Justified r (.nominate winner) := by
  cases hr : r.isRacing with
  | false =>
    refine justified_of_none (by simp [after, hr]) fun pid reason h => ?_
    cases h with
    | lost racing => simp [hr] at racing
  | true =>
    by_cases h : ∃ pids, r.ownership = .racing pids
    · obtain ⟨pids, ho⟩ := h
      have hd : pids.Nodup := by simpa [Race.pids, ho] using hn
      refine ⟨(pids.erase winner).map (·, .normal), ?_, fun p reason => ?_⟩
      · simp only [after, hr, if_true]
        rw [(sameTable_nominate ho).closes]; rfl
      · simp only [List.mem_map, Prod.mk.injEq, hd.mem_erase_iff]
        constructor
        · rintro ⟨q, ⟨hne, hq⟩, rfl, rfl⟩
          exact .lost hr ho hq hne
        · intro h
          cases h with
          | lost _ table mem ne =>
            obtain rfl : pids = _ := by simpa [ho] using table
            exact ⟨p, ⟨ne, mem⟩, rfl, rfl⟩
    · refine justified_of_none ?_ fun pid reason hc => ?_
      · simp only [after, hr, if_true]
        exact (sameTable_nominate_of_closed (not_exists.1 h)).closes
      · cases hc with
        | lost _ table => exact h ⟨_, table⟩

theorem closes_deliver (pid : PathId) (item : Inbound) (r : Race) :
    (r.deliver pid item).closes = r.closes ++
      if item.isLast ∧ pid ∈ r.pids then [(pid, .normal)] else [] := by
  have same := sameTable_without_reader pid r
  unfold deliver
  cases item with
  | chunk data => simp [Inbound.isLast]
  | ended => simp [closes_prune, same.pids, Inbound.isLast]
  | failed fault => simp [closes_prune, same.pids, Inbound.isLast]

theorem justified_pump (pid : PathId) (item : Option Inbound) (r : Race) :
    Justified r (.pump pid item) := by
  by_cases h : r.isHalting = false ∧ pid ∈ r.reading
  · obtain ⟨hh, hr⟩ := h
    have hr' : r.reading.contains pid = true := List.contains_iff_mem.2 hr
    cases item with
    | none =>
      refine justified_of_none ?_ fun p reason hc => by cases hc
      simp only [after, pump, hh, hr']
      split_ifs <;> rfl
    | some item =>
      refine ⟨if item.isLast ∧ pid ∈ r.pids then [(pid, .normal)] else [], ?_, fun p reason => ?_⟩
      · have hp : r.canPump pid true = true := by simp [canPump, hr]
        simp only [after, Option.isSome_some, hp, if_true, pump, hh, hr', Bool.false_eq_true, if_false]
        exact closes_deliver pid item r
      · constructor
        · split_ifs with hl
          · intro hm
            obtain ⟨rfl, rfl⟩ : p = pid ∧ reason = .normal := by simpa using hm
            exact .unreadable hh hr hl.1 hl.2
          · simp
        · intro hc
          cases hc with
          | unreadable _ _ last owned => simp [last, owned]
  · refine justified_of_none ?_ fun p reason hc => ?_
    · simp only [after]
      split_ifs
      · unfold pump
        split_ifs with hh hr
        · rfl
        · exact absurd ⟨by simpa using hh, List.contains_iff_mem.1 hr⟩ h
        · exact (sameTable_grant pid r).closes
      · rfl
    · cases hc with
      | unreadable running reading => exact h ⟨running, reading⟩

theorem justified_of_nodup {r : Race} (hn : r.pids.Nodup) (m : Move) : Justified r m := by
  cases m with
  | sweep => exact justified_sweep r
  | pump pid item => exact justified_pump pid item r
  | failWrite pid => exact justified_failWrite pid r
  | nominate pid => exact justified_nominate pid r hn
  | _ => exact justified_of_none (sameTable_after rfl r).closes (by rintro pid reason ⟨⟩)

/-- The winner is closed only when its stream has ended or the signal has been raised. -/
theorem closing_winner {r : Race} {m : Move} {pid : PathId} {reason : CloseReason}
    (hw : r.winner? = some pid) (hc : Closing r m pid reason) :
    (∃ item, m = .pump pid (some item) ∧ item.isLast = true ∧ pid ∈ r.reading) ∨
      r.signal.heard.isSome = true := by
  have past : r.isRacing = false := by
    cases hr : r.consumer <;> simp_all [winner?, isRacing]
  cases hc with
  | lost racing => simp [past] at racing
  | unreadable _ reading last => exact .inl ⟨_, rfl, last, reading⟩
  | unwritable racing => simp [past] at racing
  | swept _ raised => exact .inr (by simp [raised])

/-! ### From the start -/

/-- A race on these paths, with any causes raised before. -/
def start (before : List Cause) (pids : List PathId) : Except Failure Unit × Race :=
  (before.foldl (fun r c => r.raise c) idle).enter pids

theorem foldl_raise (before : List Cause) (r : Race) :
    before.foldl (fun r c => r.raise c) r =
      { r with signal := (before.foldl (fun r c => r.raise c) r).signal } := by
  induction before generalizing r with
  | nil => rfl
  | cons c rest ih => exact ih (r.raise c)

theorem later_foldl_raise (before : List Cause) (r : Race) :
    SameTable r (before.foldl (fun r c => r.raise c) r) := by
  induction before generalizing r with
  | nil => exact .refl r
  | cons c rest ih => exact (sameTable_raise c r).trans (ih _)

theorem start_of_nodup (before : List Cause) {pids : List PathId} (he : pids ≠ [])
    (hn : pids.Nodup) : (start before pids).1 = .ok () ∧ Kept pids (start before pids).2 := by
  have same := later_foldl_raise before idle
  have hf : firstRepeated [] pids = none := (firstRepeated_eq_none_iff [] pids).2 ⟨hn, by simp⟩
  refine ⟨by simp [start, enter, he, hf], ?_⟩
  simp only [start, enter, he, hf, if_false]
  refine ⟨?_, by simp, same.signal.stopped rfl⟩
  have hc : (before.foldl (fun r c => r.raise c) idle).closes = [] := same.closes
  simpa [accounted, Race.pids, hc] using List.mergeSort_perm pids (· ≤ ·)

theorem start_of_not_nodup (before : List Cause) {pids : List PathId} (hn : ¬ pids.Nodup) :
    (∃ why, (start before pids).1 = .error (.config why)) ∧
      (start before pids).2.closes = pids.map (·, .normal) := by
  have same := later_foldl_raise before idle
  have he : pids ≠ [] := by rintro rfl; exact hn List.nodup_nil
  cases hf : firstRepeated [] pids with
  | none => exact absurd ((firstRepeated_eq_none_iff [] pids).1 hf).1 hn
  | some pid =>
    have hc : (before.foldl (fun r c => r.raise c) idle).closes = [] := same.closes
    refine ⟨⟨_, by simp [start, enter, he, hf]; rfl⟩, ?_⟩
    simp [start, enter, he, hf, closes_closing, hc]

theorem kept_run {pids : List PathId} {r : Race} (k : Kept pids r) (ms : List Move) :
    Kept pids (run ms r) := run_keeps (fun _ m k => kept_after m k) ms k

theorem Kept.closes_perm {pids : List PathId} {r : Race} (k : Kept pids r)
    (hw : r.watching = false) : (r.closes.map Prod.fst).Perm pids := by
  simpa [Race.accounted, Race.pids, k.swept hw] using k.accounted

theorem Kept.watching_sweep {pids : List PathId} {r : Race} (k : Kept pids r)
    (hr : r.signal.cause.isSome = true) : (r.after .sweep).watching = false := by
  have hh : r.signal.heard.isSome = true := by simp [Signal.heard, k.heard, hr]
  cases hw : r.watching with
  | false => simp [after, canSweep, hw]
  | true =>
    obtain ⟨cause, hc⟩ := Option.isSome_iff_exists.1 hh
    simp [after, canSweep, isHalting, hw, hc, sweep]

/-- Every path of a race is closed at most once, for one of the reasons of `Closing`, and exactly once
if the signal has been raised and the watcher has run. If a path number occurs twice, all paths are
closed at the start. -/
theorem each_path_closed_once (before : List Cause) (pids : List PathId) :
    (¬ pids.Nodup →
      (∃ why, (start before pids).1 = .error (.config why)) ∧
        (start before pids).2.closes = pids.map (·, .normal)) ∧
    (pids ≠ [] → pids.Nodup → (start before pids).1 = .ok () ∧
      ∀ ms : List Move, let r := run ms (start before pids).2
        (r.closes.map Prod.fst).Nodup ∧ (∀ c ∈ r.closes, c.1 ∈ pids) ∧
        (∀ m, Justified r m) ∧
        (∀ m pid reason, r.winner? = some pid → Closing r m pid reason →
          (∃ item, m = .pump pid (some item) ∧ item.isLast = true ∧ pid ∈ r.reading) ∨
            r.signal.cause.isSome = true) ∧
        (r.signal.cause.isSome = true → (r.after .sweep).watching = false ∧
          (r.watching = false → ∀ pid ∈ pids, (r.closes.map Prod.fst).count pid = 1))) := by
  refine ⟨start_of_not_nodup before, fun he hn => ?_⟩
  obtain ⟨hok, k₀⟩ := start_of_nodup before he hn
  refine ⟨hok, fun ms => ?_⟩
  intro r
  have k : Kept pids r := kept_run k₀ ms
  have hd : r.accounted.Nodup := k.accounted.nodup_iff.2 hn
  refine ⟨(List.nodup_append.1 hd).1, ?_, ?_, ?_, fun hc => ⟨k.watching_sweep hc, ?_⟩⟩
  · intro c hc
    exact k.accounted.subset (List.mem_append_left _ (List.mem_map_of_mem hc))
  · exact justified_of_nodup (List.nodup_append.1 hd).2.1
  · intro m pid reason hw hc
    refine (closing_winner hw hc).imp_right fun h => ?_
    simpa [Signal.heard, k.heard] using h
  · intro hw pid hp
    exact List.count_eq_one_of_mem ((k.closes_perm hw).nodup_iff.2 hn)
      ((k.closes_perm hw).mem_iff.2 hp)

/-- A race whose signal is raised after the nomination of the second path, and two paths with the same
number. -/
theorem each_path_closed_once_nominated :
    ¬ ([4, 4] : List PathId).Nodup ∧ (start [] [4, 4]).2.closes = [(4, .normal), (4, .normal)] ∧
    ([5, 3] : List PathId) ≠ [] ∧ ([5, 3] : List PathId).Nodup ∧
    (let r := run [.nominate 5, .raise .protocolError] (start [.closed] [5, 3]).2
     r.winner? = some 5 ∧ Closing r .sweep 5 .normal ∧ r.signal.cause.isSome = true) ∧
    (let r := run [.nominate 5, .raise .protocolError, .sweep] (start [.closed] [5, 3]).2
     r.signal.cause.isSome = true ∧ r.watching = false ∧
      ∀ pid ∈ ([5, 3] : List PathId), (r.closes.map Prod.fst).count pid = 1) := by
  have hn : ([5, 3] : List PathId).Nodup := by decide
  have twice := (each_path_closed_once [] [4, 4]).1 (by decide)
  have once := ((each_path_closed_once [.closed] [5, 3]).2 (by decide) hn).2
  obtain ⟨-, -, -, raised, -⟩ := once [.nominate 5, .raise .protocolError]
  obtain ⟨-, -, -, -, swept⟩ := once [.nominate 5, .raise .protocolError, .sweep]
  have hw : (run [.nominate 5, .raise .protocolError] (start [.closed] [5, 3]).2).winner? = some 5 := by
    cbv
  have heard : (run [.nominate 5, .raise .protocolError] (start [.closed] [5, 3]).2).signal.heard
      = some .closed := by cbv
  have hc : Closing (run [.nominate 5, .raise .protocolError] (start [.closed] [5, 3]).2) .sweep 5
      .normal := .swept (by cbv) heard (List.contains_iff_mem.1 (by cbv))
  have hs : (run [.nominate 5, .raise .protocolError, .sweep]
      (start [.closed] [5, 3]).2).signal.cause.isSome = true := by cbv
  refine ⟨by decide, twice.2, by decide, hn, ⟨hw, hc, ?_⟩, hs, by cbv, (swept hs).2 (by cbv)⟩
  exact (raised _ _ _ hw hc).resolve_left (by rintro ⟨item, hm, -⟩; cases hm)

end Race

end PathRace
