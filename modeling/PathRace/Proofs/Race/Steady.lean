import PathRace.Proofs.Race.Flow

/-! Races without a raise. The signal is quiet, and every owned path has its pump and its writer
(`Steady`), before the nomination (`Open`) and after it (`Won`). Paths may end as long as another is
left. -/

namespace PathRace

namespace Race

variable {paths : List PathId} {r : Race} {w : PathId}

structure Steady (paths : List PathId) (r : Race) : Prop where
  quiet : r.signal = Signal.quiet
  kept : r.Kept paths
  seated : r.Seated
  placed : ∀ pid ∈ r.pids, pid ∈ r.places
  within : ∀ pid ∈ r.places, pid ∈ paths
  written : ∀ pid ∈ r.pids, pid ∈ r.writers

/-- The race is on and no path has been nominated. -/
structure Open (paths : List PathId) (r : Race) : Prop extends Steady paths r where
  table : r.ownership = .racing r.pids
  consumer : r.consumer = .racing
  left : r.pids ≠ []

/-- Path `w` has been nominated, and both its halves are held. -/
structure Won (paths : List PathId) (w : PathId) (r : Race) : Prop extends Steady paths r where
  table : r.ownership = .nominated w true
  consumer : ∃ backlog, r.consumer = .nominated w backlog true true

theorem Steady.running (h : Steady paths r) : r.isHalting = false := by
  rw [isHalting_eq, h.quiet]; rfl

theorem Steady.nodup (h : Steady paths r) (distinct : paths.Nodup) : r.pids.Nodup := by
  have all : r.accounted.Nodup := h.kept.accounted.nodup_iff.2 distinct
  exact (List.nodup_append.1 all).2.1

theorem Steady.owned (h : Steady paths r) {pid : PathId} (hp : pid ∈ paths)
    (spared : pid ∉ r.closes.map Prod.fst) : pid ∈ r.pids :=
  (List.mem_append.1 (h.kept.accounted.mem_iff.2 hp)).resolve_left spared

theorem Open.isRacing (h : Open paths r) : r.isRacing = true := by simp [Race.isRacing, h.consumer]

theorem Won.pids (h : Won paths w r) : r.pids = [w] := by simp [Race.pids, h.table]

theorem Won.serves (h : Won paths w r) : r.Serves w := by
  obtain ⟨backlog, hc⟩ := h.consumer
  simp [Serves, hc]

/-! ### Pumps -/

theorem placed_without {pid q : PathId} (distinct : r.pids.Nodup) (placed : ∀ p ∈ r.pids, p ∈ r.places)
    (hq : q ∈ r.pids.erase pid) : q ∈ r.reading.erase pid ++ r.line.map Prod.fst := by
  have other : q ≠ pid := (distinct.mem_erase_iff.1 hq).1
  rcases List.mem_append.1 (placed q (List.mem_of_mem_erase hq)) with reading | line
  · exact List.mem_append_left _ ((List.mem_erase_of_ne other).2 reading)
  · exact List.mem_append_right _ line

theorem Pumped.placed {r' : Race} {pid : PathId} {item : Option Inbound} (h : Pumped r pid item r')
    (running : r.isHalting = false) (alive : r.consumes = true) (distinct : r.pids.Nodup)
    (placed : ∀ p ∈ r.pids, p ∈ r.places) : ∀ p ∈ r'.pids, p ∈ r'.places := by
  intro q hq
  cases h with
  | still => exact placed q hq
  | halted raised => rw [running] at raised; cases raised
  | delivered =>
    rcases List.mem_append.1 (placed q hq) with reading | line
    · by_cases other : q = pid
      · simp [Race.places, other]
      · exact List.mem_append_left _ ((List.mem_erase_of_ne other).2 reading)
    · simp only [Race.places, List.map_append]
      exact List.mem_append_right _ (List.mem_append_left _ line)
  | ended | failed =>
    rw [pids_prune] at hq
    rw [places_prune]
    exact placed_without distinct placed hq
  | granted running first free owned =>
    have before := placed q hq
    simp only [Race.places, first, List.map_cons] at before ⊢
    simpa [or_comm, or_left_comm, or_assoc] using before
  | dropped running first free gone =>
    have other : q ≠ pid := by
      rintro rfl
      have owned : r.owns q = true := List.contains_iff_mem.2 hq
      rw [gone] at owned
      cases owned
    have before := placed q hq
    simpa [Race.places, first, other] using before
  | deserted running nobody => rw [alive] at nobody; cases nobody

/-! ### Paths that end -/

theorem prune_of_racing {pid : PathId} (table : r.ownership = .racing r.pids)
    (spared : ∃ q ∈ r.pids, q ≠ pid) (failed : Bool) :
    r.prune pid failed = { r.closing (if pid ∈ r.pids then [pid] else []) .normal with
      ownership := .racing (r.pids.erase pid) } := by
  obtain ⟨q, hq, other⟩ := spared
  unfold prune
  rw [table]
  by_cases hp : pid ∈ r.pids
  · have left : r.pids.erase pid ≠ [] := List.ne_nil_of_mem ((List.mem_erase_of_ne other).2 hq)
    simp [hp, left]
  · simp [hp, closing, List.erase_of_not_mem hp, ← table]

theorem prune_of_nominated {pid : PathId} {held : Bool} (table : r.ownership = .nominated w held)
    (other : w ≠ pid) (failed : Bool) : r.prune pid failed = r := by
  simp [prune, table, other]

/-- Only a path that leaves another one in the race may end. -/
def Spares (r : Race) (pid : PathId) (item : Option Inbound) : Prop :=
  ∀ i ∈ item, i.isLast = true → ∃ q ∈ r.pids, q ≠ pid

theorem Open.pumped (h : Open paths r) {pid : PathId} {item : Option Inbound} {r' : Race}
    (p : Pumped r pid item r') (spares : r.Spares pid item) :
    r'.signal = r.signal ∧ r'.ownership = .racing r'.pids ∧ r'.pids ≠ [] ∧ r'.writers = r.writers := by
  have pruned (failed : Bool) (spared : ∃ q ∈ r.pids, q ≠ pid) :
      let r' := prune pid failed { r with reading := r.reading.erase pid }
      r'.signal = r.signal ∧ r'.ownership = .racing r'.pids ∧ r'.pids ≠ [] ∧
        r'.writers = r.writers := by
    have he := prune_of_racing (r := { r with reading := r.reading.erase pid }) h.table spared failed
    obtain ⟨q, hq, other⟩ := spared
    have left : r.pids.erase pid ≠ [] := List.ne_nil_of_mem ((List.mem_erase_of_ne other).2 hq)
    rw [he]
    exact ⟨rfl, rfl, left, rfl⟩
  cases p with
  | still | halted | delivered | granted | dropped => exact ⟨rfl, h.table, h.left, rfl⟩
  | ended => exact pruned false (spares _ rfl rfl)
  | failed => exact pruned true (spares _ rfl rfl)
  | deserted _ nobody => simp [consumes, h.consumer] at nobody

theorem Won.pumped (h : Won paths w r) {pid : PathId} {item : Option Inbound} {r' : Race}
    (p : Pumped r pid item r') (spares : r.Spares pid item) :
    r'.signal = r.signal ∧ r'.ownership = .nominated w true ∧ r'.writers = r.writers := by
  have pruned (failed : Bool) (spared : ∃ q ∈ r.pids, q ≠ pid) :
      let r' := prune pid failed { r with reading := r.reading.erase pid }
      r'.signal = r.signal ∧ r'.ownership = .nominated w true ∧ r'.writers = r.writers := by
    obtain ⟨q, hq, other⟩ := spared
    rw [h.pids] at hq
    obtain rfl := List.mem_singleton.1 hq
    intro r'
    have he : r' = { r with reading := r.reading.erase pid } :=
      prune_of_nominated (r := { r with reading := r.reading.erase pid }) h.table other failed
    rw [he]
    exact ⟨rfl, h.table, rfl⟩
  cases p with
  | still | halted | delivered | granted | dropped => exact ⟨rfl, h.table, rfl⟩
  | ended => exact pruned false (spares _ rfl rfl)
  | failed => exact pruned true (spares _ rfl rfl)
  | deserted _ nobody =>
    obtain ⟨backlog, hc⟩ := h.consumer
    simp [consumes, hc] at nobody

theorem taken_subset (r : Race) (pid : PathId) (item : Option Inbound) :
    ∀ i ∈ (r.taken (.pump pid item)).map Prod.snd, i ∈ item := by
  intro i hi
  cases item with
  | none => exact hi
  | some i' =>
    simp only [taken] at hi
    split_ifs at hi
    · exact hi
    · cases hi

theorem Steady.pump (h : Steady paths r) (distinct : paths.Nodup) (alive : r.consumes = true)
    (pid : PathId) (item : Option Inbound) (quiet : (r.after (.pump pid item)).signal = r.signal)
    (writers : (r.after (.pump pid item)).writers = r.writers) :
    Steady paths (r.after (.pump pid item)) where
  quiet := quiet.trans h.quiet
  kept := kept_after _ h.kept
  seated := seated_after h.seated _
  placed := (pumped_after r pid item).placed h.running alive (h.nodup distinct) h.placed
  within q hq := h.within q ((pumped_after r pid item).places.subset hq)
  written q hq := by
    rw [writers]
    exact h.written q ((sublist_pids_after h.seated _).subset hq)

theorem Open.pump (h : Open paths r) (distinct : paths.Nodup) {pid : PathId} {item : Option Inbound}
    (spares : r.Spares pid item) : Open paths (r.after (.pump pid item)) := by
  have pumped := pumped_after r pid item
  have spares : r.Spares pid ((r.taken (.pump pid item)).map Prod.snd) :=
    fun i hi => spares i (taken_subset r pid item i hi)
  obtain ⟨quiet, table, left, writers⟩ := h.pumped pumped spares
  exact ⟨h.toSteady.pump distinct (by simp [consumes, h.consumer]) pid item quiet writers, table,
    pumped.consumer.trans h.consumer, left⟩

theorem Won.pump (h : Won paths w r) (distinct : paths.Nodup) {pid : PathId} {item : Option Inbound}
    (spares : r.Spares pid item) : Won paths w (r.after (.pump pid item)) := by
  have pumped := pumped_after r pid item
  have spares : r.Spares pid ((r.taken (.pump pid item)).map Prod.snd) :=
    fun i hi => spares i (taken_subset r pid item i hi)
  obtain ⟨quiet, table, writers⟩ := h.pumped pumped spares
  obtain ⟨backlog, hc⟩ := h.consumer
  exact ⟨h.toSteady.pump distinct (by simp [consumes, hc]) pid item quiet writers, table, backlog,
    pumped.consumer.trans hc⟩

/-- If a path is still served, its pump adds what it takes to what waits for the consumer. -/
theorem Steady.flow (h : Steady paths r) {pid q : PathId} {item : Option Inbound}
    (serves : (r.after (.pump pid item)).Serves q) : r.Serves q ∧
      (r.after (.pump pid item)).front q ++ (r.after (.pump pid item)).queued q =
        r.front q ++ r.queued q ++ chunksOf q (r.inflow (.pump pid item)) := by
  obtain ⟨served, -, flow⟩ := (pumped_after r pid item).flow h.seated serves
  rw [inflow_pump]
  exact ⟨served, flow h.running⟩

/-! ### The consumer -/

theorem Open.after (h : Open paths r) {m : Move} (hm : m.isPump = false) {r' : Race}
    (he : r.after m = r') (quiet : r'.signal = r.signal) (written : ∀ q ∈ r'.pids, q ∈ r'.writers)
    (table : r'.ownership = .racing r'.pids) (consumer : r'.consumer = .racing) (left : r'.pids ≠ []) :
    Open paths r' := by
  have moved := moved_after h.seated hm
  have kept := kept_after m h.kept
  have seated := seated_after h.seated m
  rw [he] at moved kept seated
  refine ⟨⟨quiet.trans h.quiet, kept, seated, fun q hq => ?_, ?_, written⟩, table, consumer, left⟩
  · rw [moved.places]
    exact h.placed q (moved.pids.subset hq)
  · rw [moved.places]
    exact h.within

theorem Open.not_dry (h : Open paths r) : r.isDry = false := by
  obtain ⟨q, hq⟩ := List.exists_mem_of_ne_nil _ h.left
  by_contra dry
  obtain ⟨reading, line⟩ : r.reading = [] ∧ r.line = [] := by simpa [isDry] using dry
  have placed := h.placed q hq
  simp [places, reading, line] at placed

/-- While paths are left, a receive takes what is in the slot and does not fail. -/
theorem Open.receive (h : Open paths r) :
    Open paths r.receive.2 ∧
      ((r.slot = none ∧ r.receive = (none, r)) ∨ ∃ pid data, r.slot = some (pid, data) ∧
        r.receive = (if r.owns pid then some (.ok (pid, data)) else none, { r with slot := none })) := by
  have silent : r.signal.heard = none := by rw [h.quiet]; rfl
  have same : r.after .receive = r.receive.2 := by simp [Race.after, h.isRacing]
  cases hs : r.slot with
  | none =>
    have waits : r.receive = (none, r) := by simp [Race.receive, silent, hs, h.not_dry]
    exact ⟨by rw [waits]; exact h, .inl ⟨rfl, waits⟩⟩
  | some e =>
    have takes : r.receive =
        (if r.owns e.1 then some (.ok e) else none, { r with slot := none }) := by
      simp [Race.receive, silent, hs]
    refine ⟨?_, .inr ⟨e.1, e.2, rfl, takes⟩⟩
    rw [takes] at same ⊢
    exact h.after (m := .receive) rfl same rfl h.written h.table h.consumer h.left

theorem Open.received (h : Open paths r) {p pid : PathId} {data : Bytes}
    (slot : r.slot = some (p, data)) (serves : r.receive.2.Serves pid) : r.Serves pid ∧
      r.front pid ++ r.queued pid = (if p ∈ r.pids then chunksOf pid [(p, data)] else []) ++
        (r.receive.2.front pid ++ r.receive.2.queued pid) := by
  have same : r.after .receive = r.receive.2 := by simp [Race.after, h.isRacing]
  rw [← same] at serves ⊢
  obtain ⟨served, front, queued⟩ := hands_after h.seated rfl serves
  refine ⟨served, ?_⟩
  have out : chunksOf pid (r.outflow .receive) =
      if p ∈ r.pids then chunksOf pid [(p, data)] else [] := by
    have silent : r.signal.heard = none := by rw [h.quiet]; rfl
    by_cases hp : p ∈ r.pids <;>
      simp [outflow, h.isRacing, receiveChunk, Race.receive, silent, slot, owns, hp]
  rw [queued, ← front, out, List.append_assoc]

theorem Open.openWrite (h : Open paths r) (pid : PathId) :
    (pid ∈ r.pids ∧ r.openWrite pid = (.granted, r)) ∨
    (pid ∉ r.pids ∧ r.openWrite pid = (.dropped, { r with writers := r.writers.erase pid }) ∧
      Open paths { r with writers := r.writers.erase pid }) := by
  have silent : r.signal.cause = none := by rw [h.quiet]; rfl
  by_cases hp : pid ∈ r.pids
  · exact .inl ⟨hp, by simp [Race.openWrite, silent, owns, holdsWriter, hp, h.written pid hp]⟩
  · have he : r.openWrite pid = (.dropped, { r with writers := r.writers.erase pid }) := by
      simp [Race.openWrite, silent, owns, hp]
    refine .inr ⟨hp, he, ?_⟩
    have same : r.after (.openWrite pid) = { r with writers := r.writers.erase pid } := by
      simp [Race.after, h.isRacing, he]
    refine h.after (m := .openWrite pid) rfl same rfl (fun q hq => ?_) h.table h.consumer h.left
    have other : q ≠ pid := by rintro rfl; exact hp hq
    exact (List.mem_erase_of_ne other).2 (h.written q hq)

theorem Open.failWrite (h : Open paths r) (distinct : paths.Nodup) {pid : PathId}
    (spared : ∃ q ∈ r.pids, q ≠ pid) : Open paths (r.failWrite pid) := by
  have he : r.failWrite pid = _ :=
    prune_of_racing (r := { r with writers := r.writers.erase pid }) h.table spared true
  have same : r.after (.failWrite pid) = r.failWrite pid := by simp [Race.after, h.isRacing]
  obtain ⟨q, hq, other⟩ := spared
  have left : r.pids.erase pid ≠ [] := List.ne_nil_of_mem ((List.mem_erase_of_ne other).2 hq)
  rw [he] at same ⊢
  refine h.after (m := .failWrite pid) rfl same rfl (fun q hq => ?_) rfl h.consumer left
  have hq : q ∈ r.pids.erase pid := hq
  have other : q ≠ pid := ((h.nodup distinct).mem_erase_iff.1 hq).1
  exact (List.mem_erase_of_ne other).2 (h.written q (List.mem_of_mem_erase hq))

/-- A path in the race can be nominated. -/
theorem Open.nominate (h : Open paths r) (owned : w ∈ r.pids) :
    (r.nominate w).1 = .ok () ∧ Won paths w (r.nominate w).2 ∧
      (r.nominate w).2.closes = r.closes ++ (r.pids.erase w).map (·, .normal) := by
  have same : r.after (.nominate w) = (r.nominate w).2 := by simp [Race.after, h.isRacing]
  rcases nominate_cases w r with ⟨pids, ho, hm, hw, he⟩ | ⟨pids, ho, hm, he⟩ | ⟨ho, he⟩
  · obtain rfl : r.pids = pids := Ownership.racing.inj (h.table.symm.trans ho)
    have moved := moved_after h.seated (m := .nominate w) rfl
    have won : (r.nominate w).2.pids = [w] := pids_of_nominate (Prod.ext (by rw [he]) rfl)
    refine ⟨by rw [he], ⟨⟨?_, ?_, ?_, ?_, ?_, ?_⟩, ?_, ?_⟩, by rw [he]; rfl⟩
    · rw [he]; exact h.quiet
    · exact kept_nominate w h.kept
    · rw [← same]; exact seated_after h.seated _
    · intro q hq
      rw [← same] at hq ⊢
      rw [moved.places]
      exact h.placed q (moved.pids.subset hq)
    · rw [← same, moved.places]; exact h.within
    · intro q hq
      rw [won] at hq
      rw [he]
      exact hq
    · rw [he]; simp [decided, hm]
    · rw [he]; exact ⟨_, rfl⟩
  · exact (hm ⟨Ownership.racing.inj (h.table.symm.trans ho) ▸ owned, by
      simpa [holdsWriter] using h.written w owned⟩).elim
  · exact (ho _ h.table).elim

theorem Open.nominated (h : Open paths r) {pid : PathId} (serves : (r.nominate w).2.Serves pid) :
    r.Serves pid ∧ (r.nominate w).2.front pid ++ (r.nominate w).2.queued pid =
      r.front pid ++ r.queued pid := by
  have same : r.after (.nominate w) = (r.nominate w).2 := by simp [Race.after, h.isRacing]
  rw [← same] at serves ⊢
  obtain ⟨served, front, queued⟩ := hands_after h.seated rfl serves
  exact ⟨served, by rw [queued, ← front]; rfl⟩

/-! ### The start -/

theorem Open.perm {more : List PathId} (h : Open paths r) (same : paths.Perm more) : Open more r :=
  { h with
    kept := { h.kept with accounted := h.kept.accounted.trans same }
    within := fun pid hp => same.mem_iff.1 (h.within pid hp) }

theorem open_enter (he : paths ≠ []) (hn : paths.Nodup) :
    ∃ race, Race.idle.enter paths = (.ok (), race) ∧ Open paths race ∧ race.closes = [] ∧
      race.slot = none ∧ race.line = [] := by
  have kept := (start_of_nodup [] he hn).2
  have hf : firstRepeated [] paths = none := (firstRepeated_eq_none_iff [] paths).2 ⟨hn, by simp⟩
  have entered : (start [] paths).2 = { Race.idle with
      ownership := .racing (paths.mergeSort (· ≤ ·))
      reading := paths
      line := []
      slot := none
      consumer := .racing
      writers := paths
      watching := true } := by
    simp [start, enter, he, hf]
  rw [entered] at kept
  have owned (q : PathId) (hq : q ∈ paths.mergeSort (· ≤ ·)) : q ∈ paths := List.mem_mergeSort.1 hq
  refine ⟨_, by simp [enter, he, hf], ⟨⟨rfl, kept, ⟨rfl, ?_, ?_, ?_⟩, ?_, ?_, owned⟩, rfl, rfl, ?_⟩,
    rfl, rfl, rfl⟩
  · simpa [places] using hn
  · rintro q hq
    cases hq
  · rintro q hq
    cases hq
  · intro q hq
    simpa [places] using owned q hq
  · intro q hq
    simpa [places] using hq
  · intro none_left
    have none_left : paths.mergeSort (· ≤ ·) = [] := none_left
    have same := List.mergeSort_perm paths (· ≤ ·)
    rw [none_left] at same
    exact he same.nil_eq.symm

/-! ### What is closed -/

theorem closes_pump_cases (r : Race) (pid : PathId) (item : Option Inbound) :
    (r.after (.pump pid item)).closes = r.closes ∨
      (r.after (.pump pid item)).closes = r.closes ++ [(pid, .normal)] ∧
        ∃ i ∈ item, i.isLast = true := by
  have given := taken_subset r pid item
  have pumped := pumped_after r pid item
  generalize (r.taken (.pump pid item)).map Prod.snd = taken at given pumped
  generalize r.after (.pump pid item) = r' at pumped
  cases pumped with
  | still | halted | delivered | granted | dropped | deserted => exact .inl rfl
  | ended | failed =>
    rw [closes_prune]
    split_ifs
    · exact .inr ⟨rfl, _, given _ rfl, rfl⟩
    · exact .inl (List.append_nil _)

theorem closes_after_pump (r : Race) (pid : PathId) (item : Option Inbound) :
    ∀ q ∈ (r.after (.pump pid item)).closes.map Prod.fst,
      q ∈ r.closes.map Prod.fst ∨ q = pid ∧ ∃ i ∈ item, i.isLast = true := by
  intro q hq
  rcases closes_pump_cases r pid item with same | ⟨more, last⟩
  · rw [same] at hq
    exact .inl hq
  · rw [more, List.map_append] at hq
    exact (List.mem_append.1 hq).imp_right fun hq => ⟨by simpa using hq, last⟩

theorem closes_grow_nominate (pid : PathId) (r : Race) :
    r.closes <+: (r.nominate pid).2.closes := by
  by_cases h : ∃ pids, r.ownership = .racing pids
  · obtain ⟨pids, table⟩ := h
    rw [(sameTable_nominate table).closes]
    exact List.prefix_append ..
  · rw [(sameTable_nominate_of_closed (not_exists.1 h)).closes]

theorem closes_grow_pump (r : Race) (pid : PathId) (item : Option Inbound) :
    r.closes <+: (r.after (.pump pid item)).closes := by
  rcases closes_pump_cases r pid item with same | ⟨more, -⟩
  · rw [same]
  · rw [more]; exact List.prefix_append ..

end Race

end PathRace
