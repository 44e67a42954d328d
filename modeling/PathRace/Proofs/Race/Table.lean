import PathRace.Proofs.Race.Consumer

/-! The ownership table of a race. While the race is on, the table is not empty and every path in it has
its writer (`Tabled`). `noPathsRemaining` is raised only by the loss of the last path
(`exhausts_of_cause`), and a path that has left the table yields no chunk (`not_received`). -/

namespace PathRace

theorem Signal.cause_raise_of_none {s : Signal} (quiet : s.cause = none) (c : Cause) :
    (s.raise c).2.cause = some c := by
  rw [cause_raise, quiet]
  rfl

namespace Race

variable {r r' q : Race} {pid : PathId} {failed : Bool}

/-! ### A path that leaves -/

/-- The effect of pruning a path. -/
inductive Pruned (pid : PathId) (failed : Bool) (r : Race) : Race → Prop
  | spared {pids : List PathId} (table : r.ownership = .racing pids) (owned : pid ∈ pids)
      (others : pids.erase pid ≠ []) :
      Pruned pid failed r { r.closing [pid] .normal with ownership := .racing (pids.erase pid) }
  | last (table : r.ownership = .racing [pid]) :
      Pruned pid failed r ({ r.closing [pid] .normal with ownership := .released }.raise
        .noPathsRemaining)
  | winner {held : Bool} (table : r.ownership = .nominated pid held)
      (closes : List (PathId × CloseReason)) :
      Pruned pid failed r { r with
        ownership := .nominated pid false
        closes
        signal := if failed then (r.signal.raise (.pathFailed pid)).2 else r.signal }
  | absent (gone : pid ∉ r.pids) : Pruned pid failed r r

theorem erase_eq_nil_of_mem {pids : List PathId} (owned : pid ∈ pids) (alone : pids.erase pid = []) :
    pids = [pid] := by
  have perm := List.perm_cons_erase owned
  rw [alone] at perm
  exact List.perm_singleton.1 perm

theorem pruned_prune (pid : PathId) (failed : Bool) (r : Race) :
    Pruned pid failed r (r.prune pid failed) := by
  unfold prune
  cases table : r.ownership with
  | racing pids =>
    by_cases owned : pid ∈ pids
    · by_cases alone : pids.erase pid = []
      · obtain rfl := erase_eq_nil_of_mem owned alone
        simpa [raise, closing] using (Pruned.last table : Pruned pid failed r _)
      · simpa [owned, alone] using (Pruned.spared table owned alone : Pruned pid failed r _)
    · have gone : pid ∉ r.pids := by simpa [Race.pids, table] using owned
      simpa [owned] using (Pruned.absent gone : Pruned pid failed r r)
  | nominated w held =>
    by_cases other : w = pid
    · subst other
      have lost (closes : List (PathId × CloseReason)) : Pruned w failed r _ := .winner table closes
      cases held <;> cases failed
      · simpa [← table] using lost r.closes
      · simpa [← table, raise] using lost r.closes
      · simpa [closing] using lost (r.closes ++ [(w, .normal)])
      · simpa [closing, raise] using lost (r.closes ++ [(w, .normal)])
    · simp only [other, if_false]
      refine .absent ?_
      cases held <;> simp [Race.pids, table, Ne.symm other]
  | released => exact .absent (by simp [Race.pids, table])

theorem writers_prune (pid : PathId) (failed : Bool) (r : Race) :
    (r.prune pid failed).writers = r.writers := by
  have pruned := pruned_prune pid failed r
  generalize r.prune pid failed = r' at pruned ⊢
  cases pruned <;> rfl

/-- Before the nomination it makes no difference for what reason a path is pruned. -/
theorem prune_alike (ownership : q.ownership = r.ownership) (closes : q.closes = r.closes)
    (signal : q.signal = r.signal) (undecided : ∀ w held, r.ownership ≠ .nominated w held)
    (failed failed' : Bool) :
    (q.prune pid failed).pids = (r.prune pid failed').pids ∧
    (q.prune pid failed).closes = (r.prune pid failed').closes ∧
    (q.prune pid failed).signal = (r.prune pid failed').signal := by
  have pids : q.pids = r.pids := by simp only [Race.pids, ownership]
  refine ⟨by rw [pids_prune, pids_prune, pids], by rw [closes_prune, closes_prune, pids, closes], ?_⟩
  unfold prune
  rw [ownership]
  cases table : r.ownership with
  | racing pids =>
    dsimp only
    split_ifs
    · simp only [raise, closing, signal]
    · exact signal
    · exact signal
  | nominated w held => exact absurd table (undecided w held)
  | released => exact signal

/-! ### While the race is on -/

/-- The invariant of the table: its paths are ascending, an undecided race has at least one of them, and
each of them still has its writer. -/
structure Tabled (r : Race) : Prop extends Seated r where
  ascending : r.pids.Pairwise (· < ·)
  left : ∀ pids, r.ownership = .racing pids → pids ≠ []
  written : r.isRacing = true → ∀ pid ∈ r.pids, pid ∈ r.writers
  undecided : r.isRacing = true → ∀ w held, r.ownership ≠ .nominated w held
  settled : r.ownership = .released → r.signal.cause.isSome = true

theorem isSome_cause_of_later {s s' : Signal} (later : s.Later s') (raised : s.cause.isSome = true) :
    s'.cause.isSome = true := by
  obtain ⟨cause, hc⟩ := Option.isSome_iff_exists.1 raised
  rw [later.cause hc]
  rfl

theorem Tabled.same (h : Tabled r) (seated : Seated r') (same : SameTable r r')
    (writers : r'.isRacing = true → r.isRacing = true ∧ ∀ pid ∈ r.pids, pid ∈ r.writers →
      pid ∈ r'.writers) : Tabled r' where
  toSeated := seated
  ascending := by rw [same.pids]; exact h.ascending
  left pids table := h.left pids (same.ownership.symm.trans table)
  written racing pid hp := by
    obtain ⟨before, kept⟩ := writers racing
    rw [same.pids] at hp
    exact kept pid hp (h.written before pid hp)
  undecided racing w held table :=
    h.undecided (writers racing).1 w held (same.ownership.symm.trans table)
  settled done := isSome_cause_of_later same.signal (h.settled (same.ownership.symm.trans done))

theorem ne_of_lt_pid {a b : PathId} (h : a < b) : a ≠ b := by
  rintro rfl
  exact UInt32.lt_irrefl a h

theorem Tabled.nodup (h : Tabled r) : r.pids.Nodup := h.ascending.imp ne_of_lt_pid

theorem Tabled.prune (h : Tabled r) (same : SameTable r q) (consumer : q.consumer = r.consumer)
    (writers : ∀ p ∈ r.writers, p ≠ pid → p ∈ q.writers) (seated : Seated (q.prune pid failed)) :
    Tabled (q.prune pid failed) := by
  have table : (q.prune pid failed).pids = r.pids.erase pid := by rw [pids_prune, same.pids]
  have racing : (q.prune pid failed).isRacing = r.isRacing := by
    simp only [Race.isRacing, (prune_keeps pid failed q).2.2.2, consumer]
  have written (on : r.isRacing = true) : ∀ p ∈ r.pids.erase pid, p ∈ (q.prune pid failed).writers := by
    intro p hp
    obtain ⟨other, owned⟩ := h.nodup.mem_erase_iff.1 hp
    rw [writers_prune]
    exact writers p (h.written on p owned) other
  have pruned := pruned_prune pid failed q
  generalize q.prune pid failed = r' at *
  constructor
  case toSeated => exact seated
  case ascending =>
    rw [table]
    exact h.ascending.sublist List.erase_sublist
  case left =>
    intro pids left
    cases pruned with
    | spared _ _ others => exact Ownership.racing.inj left ▸ others
    | last | winner => cases left
    | absent => exact h.left pids (same.ownership.symm.trans left)
  case written =>
    intro on
    rw [table]
    exact written (racing.symm.trans on)
  case undecided =>
    intro on w held nominated
    have undecided := h.undecided (racing.symm.trans on)
    cases pruned with
    | spared | last => cases nominated
    | winner before => exact undecided _ _ (same.ownership.symm.trans before)
    | absent => exact undecided w held (same.ownership.symm.trans nominated)
  case settled =>
    -- the last path leaves with a raise; any other way the table was released before
    intro done
    cases pruned with
    | last => simp [raise, Signal.cause_raise]
    | spared | winner => cases done
    | absent =>
      exact isSome_cause_of_later same.signal (h.settled (same.ownership.symm.trans done))

theorem Pumped.tabled {item : Option Inbound} (p : Pumped r pid item r') (h : Tabled r) : Tabled r' := by
  have seated := p.seated h.toSeated
  have kept {q : Race} (consumer : q.consumer = r.consumer) (writers : q.writers = r.writers) :
      q.isRacing = true → r.isRacing = true ∧ ∀ pid ∈ r.pids, pid ∈ r.writers → pid ∈ q.writers := by
    intro on
    refine ⟨by simpa [Race.isRacing, consumer] using on, fun pid _ held => writers ▸ held⟩
  cases p with
  | still => exact h
  | halted | delivered | granted | dropped =>
    exact h.same seated ⟨rfl, rfl, rfl, .refl _⟩ (kept rfl rfl)
  | deserted => exact h.same seated ⟨rfl, rfl, rfl, .raised .closed _⟩ (kept rfl rfl)
  | ended | failed =>
    exact h.prune (sameTable_without_reader pid r) rfl (fun _ held _ => held) seated

theorem Moved.tabled {m : Move} {out : List (PathId × Bytes)} (p : Moved r m out r')
    (other : ∀ pid, m ≠ .openWrite pid) (h : Tabled r) : Tabled r' := by
  have seated := p.seated h.toSeated
  cases p with
  | still => exact h
  | opened => exact absurd rfl (other _)
  | raised | unwritten =>
    exact h.same seated ⟨rfl, rfl, rfl, .raised _ _⟩ fun on => ⟨on, fun _ _ held => held⟩
  | received | next =>
    exact h.same seated ⟨rfl, rfl, rfl, .refl _⟩ fun on => ⟨on, fun _ _ held => held⟩
  | left => exact h.same seated ⟨rfl, rfl, rfl, .raised .closed _⟩ fun on => by cases on
  | kept | unread | unheld => exact h.same seated ⟨rfl, rfl, rfl, .refl _⟩ fun on => by cases on
  | dropped => exact h.same seated ⟨rfl, rfl, rfl, .raised .closed _⟩ fun on => by cases on
  | @pruned pid racing =>
    refine h.prune (sameTable_without_writer pid r) rfl (fun p held other => ?_) seated
    exact (List.mem_erase_of_ne other).2 held
  | swept halting =>
    constructor
    case toSeated => exact seated
    case ascending => exact List.Pairwise.nil
    case left => intro pids left; cases left
    case written => intro _ pid hp; cases hp
    case undecided => intro _ w held nominated; cases nominated
    case settled =>
      intro _
      rw [isHalting_eq, h.heard] at halting
      exact halting
  | @decided pid pids racing table owned =>
    have ours : (r.decided pid pids).ownership = .nominated pid true := by
      simp [Race.decided, owned]
    constructor
    case toSeated => exact seated
    case ascending => simp [Race.pids, ours]
    case left => intro pids left; rw [ours] at left; cases left
    case written => intro on; cases on
    case undecided => intro on; cases on
    case settled => intro done; rw [ours] at done; cases done
  | @lost pid pids racing table =>
    have fewer := (Moved.lost racing table : Moved r (.nominate pid) [] _).pids
    constructor
    case toSeated => exact seated
    case ascending => exact h.ascending.sublist fewer
    case left =>
      intro pids left
      change (r.decided pid _).ownership = _ at left
      unfold Race.decided at left
      dsimp only at left
      split_ifs at left
    case written => intro on; cases on
    case undecided => intro on; cases on
    case settled =>
      intro _
      exact isSome_cause_of_later (.raised .closed _) (by simp [raise, Signal.cause_raise])

theorem owns_eq_false (gone : pid ∉ r.pids) : r.owns pid = false := by simpa [owns] using gone

theorem openWrite_of_gone (quiet : r.signal.cause = none) (gone : pid ∉ r.pids) :
    r.openWrite pid = (.dropped, { r with writers := r.writers.erase pid }) := by
  simp [openWrite, quiet, owns_eq_false gone]

theorem openWrite_cases (pid : PathId) (r : Race) : (r.openWrite pid).2 = r ∨
    pid ∉ r.pids ∧ (r.openWrite pid).2 = { r with writers := r.writers.erase pid } := by
  cases quiet : r.signal.cause with
  | some cause => exact .inl (by simp [openWrite, quiet])
  | none =>
    by_cases owned : pid ∈ r.pids
    · have here : r.owns pid = true := List.contains_iff_mem.2 owned
      refine .inl ?_
      simp only [openWrite, quiet, here, Bool.not_true, Bool.false_eq_true, if_false]
      split_ifs <;> rfl
    · exact .inr ⟨owned, by rw [openWrite_of_gone quiet owned]⟩

theorem tabled_openWrite (h : Tabled r) (pid : PathId) : Tabled (r.openWrite pid).2 := by
  rcases openWrite_cases pid r with still | ⟨gone, dropped⟩
  · rw [still]
    exact h
  · rw [dropped]
    have opened : Moved r (.openWrite pid) [] { r with writers := r.writers.erase pid } := .opened
    have seated := opened.seated h.toSeated
    refine h.same seated ⟨rfl, rfl, rfl, .refl _⟩ fun on => ⟨on, fun p owned held => ?_⟩
    have other : p ≠ pid := by
      rintro rfl
      exact gone owned
    exact (List.mem_erase_of_ne other).2 held

theorem tabled_after (h : Tabled r) (m : Move) : Tabled (r.after m) := by
  cases hm : m.isPump with
  | true =>
    obtain ⟨pid, item, rfl⟩ := pump_of_isPump hm
    exact (pumped_after r pid item).tabled h
  | false =>
    by_cases writes : ∃ pid, m = .openWrite pid
    · obtain ⟨pid, rfl⟩ := writes
      simp only [after]
      split_ifs
      · exact tabled_openWrite h pid
      · exact h
    · exact (moved_after h.toSeated hm).tabled (fun pid he => writes ⟨pid, he⟩) h

/-! ### The last path -/

/-- A move that prunes the last path before a nomination. -/
inductive Exhausts (r : Race) : Move → Prop
  | unreadable {pid : PathId} {item : Inbound} (running : r.isHalting = false)
      (reading : pid ∈ r.reading) (last : item.isLast = true) (alone : r.ownership = .racing [pid]) :
      Exhausts r (.pump pid (some item))
  | unwritable {pid : PathId} (racing : r.isRacing = true) (alone : r.ownership = .racing [pid]) :
      Exhausts r (.failWrite pid)

theorem prune_last (alone : r.ownership = .racing [pid]) : r.prune pid failed =
    { r.closing [pid] .normal with ownership := .released }.raise .noPathsRemaining := by
  simp [prune, alone]

theorem after_pump_of_reading {item : Inbound} (running : r.isHalting = false)
    (reading : pid ∈ r.reading) : r.after (.pump pid (some item)) = r.deliver pid item := by
  simp [after, canPump, pump, running, reading]

theorem deliver_of_last (pid : PathId) (r : Race) {item : Inbound} (last : item.isLast = true) :
    ∃ failed, r.deliver pid item = prune pid failed { r with reading := r.reading.erase pid } := by
  cases item with
  | chunk => cases last
  | ended => exact ⟨false, rfl⟩
  | failed => exact ⟨true, rfl⟩

theorem Exhausts.after {m : Move} (h : Exhausts r m) :
    (r.after m).pids = [] ∧ (r.after m).signal = (r.signal.raise .noPathsRemaining).2 := by
  cases h with
  | @unreadable pid item running reading last alone =>
    obtain ⟨failed, gone⟩ := deliver_of_last pid r last
    rw [after_pump_of_reading running reading, gone,
      prune_last (r := { r with reading := r.reading.erase pid }) alone]
    exact ⟨rfl, rfl⟩
  | @unwritable pid racing alone =>
    rw [Race.after, if_pos racing, failWrite,
      prune_last (r := { r with writers := r.writers.erase pid }) alone]
    exact ⟨rfl, rfl⟩

/-- Before the nomination a failing write changes the table as the end of the stream does. -/
theorem Tabled.failWrite_alike (h : Tabled r) (racing : r.isRacing = true) {item : Inbound}
    (last : item.isLast = true) :
    (r.failWrite pid).pids = (r.deliver pid item).pids ∧
    (r.failWrite pid).closes = (r.deliver pid item).closes ∧
    (r.failWrite pid).signal = (r.deliver pid item).signal := by
  obtain ⟨failed, gone⟩ := deliver_of_last pid r last
  rw [gone, failWrite]
  exact prune_alike (q := { r with writers := r.writers.erase pid })
    (r := { r with reading := r.reading.erase pid }) rfl rfl rfl (h.undecided racing) true failed

theorem item_of_taken {item : Option Inbound} {i : Inbound}
    (taken : (r.taken (.pump pid item)).map Prod.snd = some i) : item = some i := by
  cases item with
  | none => cases taken
  | some item =>
    simp only [Race.taken] at taken
    split_ifs at taken
    · exact taken
    · cases taken

theorem Pruned.alone (p : Pruned pid failed r r') (quiet : r.signal.cause = none)
    (told : r'.signal.cause = some .noPathsRemaining) : r.ownership = .racing [pid] := by
  cases p with
  | last alone => exact alone
  | spared | absent =>
    have told : r.signal.cause = some .noPathsRemaining := told
    rw [quiet] at told
    cases told
  | winner =>
    dsimp only at told
    split_ifs at told
    · rw [Signal.cause_raise_of_none quiet] at told
      cases told
    · rw [quiet] at told
      cases told

/-- Unless it is raised from outside, `noPathsRemaining` is raised only by a move of `Exhausts`. -/
theorem exhausts_of_cause (h : Tabled r) {m : Move} (ours : m ≠ .raise .noPathsRemaining)
    (quiet : r.signal.cause = none) (told : (r.after m).signal.cause = some .noPathsRemaining) :
    Exhausts r m := by
  have silent {P : Prop} (told : r.signal.cause = some .noPathsRemaining) : P := by
    rw [quiet] at told
    cases told
  have other {P : Prop} {c : Cause} (told : (r.signal.raise c).2.cause = some .noPathsRemaining)
      (hc : c ≠ .noPathsRemaining) : P := by
    rw [Signal.cause_raise_of_none quiet] at told
    exact absurd (Option.some.inj told) hc
  cases hm : m.isPump with
  | true =>
    obtain ⟨pid, item, rfl⟩ := pump_of_isPump hm
    have pumped := pumped_after r pid item
    generalize r.after (.pump pid item) = r' at pumped told
    generalize given : (r.taken (.pump pid item)).map Prod.snd = taken at pumped
    cases pumped with
    | still | halted | delivered | granted | dropped => exact silent told
    | deserted => exact other told nofun
    | ended running reading =>
      obtain rfl := item_of_taken given
      have pruned := pruned_prune pid false { r with reading := r.reading.erase pid }
      exact .unreadable running reading rfl (pruned.alone quiet told)
    | failed running reading =>
      obtain rfl := item_of_taken given
      have pruned := pruned_prune pid true { r with reading := r.reading.erase pid }
      exact .unreadable running reading rfl (pruned.alone quiet told)
  | false =>
    have moved := moved_after h.toSeated hm
    generalize r.after m = r' at moved told
    generalize r.outflow m = out at moved
    cases moved with
    | still | swept | received | opened | decided | kept | next | unread | unheld => exact silent told
    | raised => exact other told fun hc => ours (by rw [hc])
    | left | dropped | unwritten => exact other told nofun
    | @pruned pid racing =>
      have pruned := pruned_prune pid true { r with writers := r.writers.erase pid }
      exact .unwritable racing (pruned.alone quiet told)
    | @lost pid =>
      have first := Signal.cause_raise_of_none quiet (.pathFailed pid)
      have told := told.symm.trans ((Signal.Later.raised .closed _).cause first)
      cases told

/-! ### Paths that have left -/

theorem sublist_pids_run (h : Tabled r) (ms : List Move) : (run ms r).pids.Sublist r.pids :=
  (run_keeps (P := fun r' => Tabled r' ∧ r'.pids.Sublist r.pids)
    (fun _ m h => ⟨tabled_after h.1 m, (sublist_pids_after h.1.toSeated m).trans h.2⟩) ms
    ⟨h, .refl _⟩).2

theorem owned_of_receive {data : Bytes} (got : r.receive.1 = some (.ok (pid, data))) :
    pid ∈ r.pids := by
  rcases receive_cases r with ⟨-, nothing⟩ | ⟨q, data', -, he⟩
  · exact absurd got (nothing _)
  · rw [he] at got
    split_ifs at got with owned
    · cases got
      exact List.contains_iff_mem.1 owned

theorem not_received (h : Tabled r) (gone : pid ∉ r.pids) (ms : List Move) (data : Bytes) :
    (run ms r).receive.1 ≠ some (.ok (pid, data)) :=
  fun got => gone ((sublist_pids_run h ms).subset (owned_of_receive got))

/-! ### From the start -/

theorem start_eq {before : List Cause} {pids : List PathId} (born : (start before pids).1 = .ok ()) :
    pids ≠ [] ∧ pids.Nodup ∧ ∃ signal : Signal, signal.stopped = signal.cause.isSome ∧
      (start before pids).2 = { idle with
        signal
        ownership := .racing (pids.mergeSort (· ≤ ·))
        reading := pids
        consumer := .racing
        writers := pids
        watching := true } := by
  have heard : (before.foldl (fun r c => r.raise c) idle).signal.stopped =
      (before.foldl (fun r c => r.raise c) idle).signal.cause.isSome :=
    (later_foldl_raise before idle).signal.stopped rfl
  unfold start at born ⊢
  rw [foldl_raise before idle] at born ⊢
  generalize (before.foldl (fun r c => r.raise c) idle).signal = signal at heard born ⊢
  unfold enter at born ⊢
  split_ifs at born ⊢ with none_given
  cases hf : firstRepeated [] pids with
  | some pid => simp [hf] at born
  | none =>
    exact ⟨none_given, ((firstRepeated_eq_none_iff [] pids).1 hf).1, signal, heard, rfl⟩

theorem tabled_start {before : List Cause} {pids : List PathId}
    (born : (start before pids).1 = .ok ()) : Tabled (start before pids).2 := by
  obtain ⟨given, distinct, signal, heard, he⟩ := start_eq born
  have perm : (pids.mergeSort (· ≤ ·)).Perm pids := List.mergeSort_perm pids (· ≤ ·)
  have ascending : (pids.mergeSort (· ≤ ·)).Pairwise (· < ·) :=
    ((List.pairwise_mergeSort' (· ≤ ·) pids).and (perm.nodup_iff.2 distinct)).imp fun h =>
      UInt32.lt_of_le_of_ne h.1 h.2
  rw [he]
  constructor
  case toSeated =>
    refine ⟨heard, by simpa [places, idle] using distinct, ?_, ?_⟩
    · intro w hw; cases hw
    · intro w hw; cases hw
  case ascending => exact ascending
  case left =>
    intro pids' table empty
    cases table
    rw [empty] at perm
    exact given perm.symm.eq_nil
  case written =>
    intro _ pid hp
    exact perm.subset hp
  case undecided => intro _ w held nominated; cases nominated
  case settled => intro done; cases done

theorem tabled_run {before : List Cause} {pids : List PathId} (born : (start before pids).1 = .ok ())
    (ms : List Move) : Tabled (run ms (start before pids).2) :=
  run_keeps (P := Tabled) (fun _ m h => tabled_after h m) ms (tabled_start born)

end Race

end PathRace
