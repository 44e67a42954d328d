import PathRace.Proofs.Race.Consumer

/-! The chunks of one path inside a race. A chunk that a pump has taken stays in the line, the slot or
the winner's backlog until the consumer takes it, in order of arrival. While the consumer serves the
path and the signal is not noticed, a move removes exactly what it hands out and adds exactly what it
takes in (`Pumped.flow`, `hands_after`). So the chunks handed out for a path are a prefix of those the
path has delivered (`passes_after`). -/

namespace PathRace

def chunksOf (pid : PathId) (l : List (PathId × Bytes)) : List Bytes :=
  (l.filter (·.1 == pid)).map Prod.snd

@[simp] theorem chunksOf_nil (pid : PathId) : chunksOf pid [] = [] := rfl

@[simp] theorem chunksOf_append (pid : PathId) (l k : List (PathId × Bytes)) :
    chunksOf pid (l ++ k) = chunksOf pid l ++ chunksOf pid k := by simp [chunksOf]

@[simp] theorem chunksOf_self (pid : PathId) (data : Bytes) (l : List (PathId × Bytes)) :
    chunksOf pid ((pid, data) :: l) = data :: chunksOf pid l := by simp [chunksOf]

theorem chunksOf_of_ne {pid q : PathId} (h : q ≠ pid) (data : Bytes) (l : List (PathId × Bytes)) :
    chunksOf pid ((q, data) :: l) = chunksOf pid l := by simp [chunksOf, h]

theorem chunksOf_eq_nil {pid : PathId} {l : List (PathId × Bytes)} (h : pid ∉ l.map Prod.fst) :
    chunksOf pid l = [] := by
  rw [chunksOf, List.map_eq_nil_iff, List.filter_eq_nil_iff]
  intro e he hp
  exact h (List.mem_map.2 ⟨e, he, by simpa using hp⟩)

namespace Race

/-! ### Chunks inside the race -/

/-- The chunks kept for the winner's reader at the nomination. -/
def backlogOf (r : Race) (pid : PathId) : List Bytes :=
  match r.consumer with
  | .nominated winner backlog _ _ => if winner = pid then backlog else []
  | _ => []

/-- The chunks of a path that the consumer gets next without waiting. -/
def front (r : Race) (pid : PathId) : List Bytes := r.backlogOf pid ++ chunksOf pid r.slot.toList

def queued (r : Race) (pid : PathId) : List Bytes := chunksOf pid r.line

/-- Whether the consumer can still get chunks of a path. -/
def Serves (r : Race) (pid : PathId) : Prop :=
  match r.consumer with
  | .racing => r.owns pid = true
  | .nominated winner _ reader _ => winner = pid ∧ reader = true
  | .gone => False

def chunkIn : PathId × Inbound → List (PathId × Bytes)
  | (pid, .chunk data) => [(pid, data)]
  | _ => []

/-- The chunks that a move takes from the paths. -/
def inflow (r : Race) (m : Move) : List (PathId × Bytes) := (r.taken m).elim [] chunkIn

/-! ### Effect of a move on them -/

theorem front_congr {r r' : Race} (slot : r'.slot = r.slot) (consumer : r'.consumer = r.consumer)
    (pid : PathId) : r'.front pid = r.front pid := by
  simp only [front, backlogOf, slot, consumer]

theorem serves_racing {r : Race} (h : r.isRacing = true) (pid : PathId) :
    r.Serves pid ↔ r.owns pid = true := by
  have hc : r.consumer = .racing := by simpa [isRacing] using h
  simp [Serves, hc]

theorem backlogOf_racing {r : Race} (h : r.isRacing = true) (pid : PathId) :
    r.backlogOf pid = [] := by
  have hc : r.consumer = .racing := by simpa [isRacing] using h
  simp [backlogOf, hc]

theorem consumes_of_serves {r : Race} {pid : PathId} (h : r.Serves pid) : r.consumes = true := by
  unfold Serves at h
  unfold consumes
  cases hc : r.consumer with
  | racing => rfl
  | nominated => rw [hc] at h; exact h.2
  | gone => rw [hc] at h; exact h.elim

theorem serves_of_fewer {r r' : Race} (consumer : r'.consumer = r.consumer)
    (fewer : ∀ pid ∈ r'.pids, pid ∈ r.pids) {pid : PathId} (h : r'.Serves pid) : r.Serves pid := by
  unfold Serves at h ⊢
  rw [consumer] at h
  cases hc : r.consumer with
  | racing =>
    rw [hc] at h
    exact List.contains_iff_mem.2 (fewer pid (List.contains_iff_mem.1 h))
  | nominated | gone => rw [hc] at h; exact h

theorem serves_of_prune {r : Race} {q pid : PathId} {failed : Bool}
    (h : (r.prune q failed).Serves pid) : r.Serves pid := by
  refine serves_of_fewer (prune_keeps q failed r).2.2.2 (fun p hp => ?_) h
  rw [pids_prune] at hp
  exact List.mem_of_mem_erase hp

theorem Seated.owns_of_line {r : Race} (s : Seated r) {pid : PathId} (running : r.isHalting = false)
    (serves : r.Serves pid) (line : pid ∈ r.line.map Prod.fst) : r.owns pid = true := by
  unfold Serves at serves
  cases hc : r.consumer with
  | racing => rw [hc] at serves; exact serves
  | gone => rw [hc] at serves; exact serves.elim
  | nominated w backlog reader writer =>
    rw [hc] at serves
    obtain ⟨rfl, -⟩ := serves
    obtain ⟨held, table, hl⟩ := s.winner w (winner?_of_consumer hc) running
    obtain rfl := hl.resolve_right fun h => h (List.mem_append_right _ line)
    simp [owns, Race.pids, table]

/-- A pump adds what it takes from a served path to what waits for the consumer. -/
theorem Pumped.flow {r r' : Race} {q : PathId} {item : Option Inbound} (h : Pumped r q item r')
    (s : Seated r) {pid : PathId} (serves : r'.Serves pid) :
    r.Serves pid ∧ (r.isHalting = true → item = none ∧ r'.front pid = r.front pid) ∧
      (r.isHalting = false → r'.front pid ++ r'.queued pid =
        r.front pid ++ r.queued pid ++ chunksOf pid (item.elim [] fun i => chunkIn (q, i))) := by
  cases h with
  | still => exact ⟨serves, fun _ => ⟨rfl, rfl⟩, fun _ => by simp⟩
  | halted raised => exact ⟨serves, fun _ => ⟨rfl, rfl⟩, by simp [raised]⟩
  | delivered running reading =>
    refine ⟨serves, by simp [running], fun _ => ?_⟩
    simp [front, backlogOf, queued, chunkIn]
  | ended running reading =>
    obtain ⟨-, hl, hs, hc⟩ := prune_keeps q false { r with reading := r.reading.erase q }
    have served : Serves { r with reading := r.reading.erase q } pid := serves_of_prune serves
    refine ⟨served, by simp [running], fun _ => ?_⟩
    rw [front_congr hs hc]
    simp [queued, hl, front, backlogOf, chunkIn]
  | failed running reading =>
    obtain ⟨-, hl, hs, hc⟩ := prune_keeps q true { r with reading := r.reading.erase q }
    have served : Serves { r with reading := r.reading.erase q } pid := serves_of_prune serves
    refine ⟨served, by simp [running], fun _ => ?_⟩
    rw [front_congr hs hc]
    simp [queued, hl, front, backlogOf, chunkIn]
  | @granted data rest running first free owned =>
    refine ⟨serves, by simp [running], fun _ => ?_⟩
    have split : chunksOf pid ((q, data) :: rest) = chunksOf pid [(q, data)] ++ chunksOf pid rest :=
      chunksOf_append pid [(q, data)] rest
    simp [front, backlogOf, queued, first, free, split]
  | @dropped data rest running first free gone =>
    refine ⟨serves, by simp [running], fun _ => ?_⟩
    have other : q ≠ pid := by
      rintro rfl
      have owned := s.owns_of_line running serves (by simp [first])
      rw [gone] at owned
      cases owned
    simp [front, backlogOf, queued, first, chunksOf_of_ne other]
  | deserted running nobody =>
    have busy : r.consumes = true := consumes_of_serves (r := (r.leaveLine q).raise .closed) serves
    rw [nobody] at busy
    cases busy

/-- A move hands out the first of the chunks that wait and nothing else. -/
def Hands (r : Race) (m : Move) (pid : PathId) : Prop :=
  r.Serves pid ∧ chunksOf pid (r.outflow m) ++ (r.after m).front pid = r.front pid ∧
    (r.after m).queued pid = r.queued pid

theorem hands_after {r : Race} (s : Seated r) {m : Move} (hm : m.isPump = false) {pid : PathId}
    (serves : (r.after m).Serves pid) : Hands r m pid := by
  have moved := moved_after s hm
  unfold Hands
  generalize r.outflow m = out at moved ⊢
  generalize r.after m = r' at moved serves ⊢
  cases moved with
  | still | raised | opened | unwritten => exact ⟨serves, rfl, rfl⟩
  | swept =>
    refine ⟨?_, rfl, rfl⟩
    refine serves_of_fewer ?_ ?_ serves
    · rfl
    · intro p hp
      cases hp
  | @received q data racing slot =>
    refine ⟨serves, ?_, rfl⟩
    have nothing : front { r with slot := none } pid = [] := by
      simpa [front] using backlogOf_racing (r := { r with slot := none }) racing pid
    rw [nothing, List.append_nil, front, backlogOf_racing racing, slot]
    by_cases hq : q = pid
    · subst hq
      have owned : r.owns q = true := (serves_racing racing q).1 serves
      simp [owned]
    · cases r.owns q <;> simp [chunksOf_of_ne hq]
  | @pruned q racing =>
    obtain ⟨-, hl, hs, hc⟩ := prune_keeps q true { r with writers := r.writers.erase q }
    exact ⟨serves_of_prune (r := { r with writers := r.writers.erase q }) serves,
      front_congr hs hc pid, congrArg (chunksOf pid) hl⟩
  | @decided q pids racing table owned =>
    obtain ⟨rfl, -⟩ : q = pid ∧ True := by simpa [Serves] using serves
    refine ⟨(serves_racing racing q).2 (by simpa [owns, Race.pids, table] using owned), ?_, rfl⟩
    rw [front, front, backlogOf_racing racing]
    simp [backlogOf, chunksOf]
  | lost | left => exact serves.elim
  | kept consumer =>
    obtain ⟨rfl, -⟩ := serves
    exact ⟨by simp [Serves, consumer], by simp [front, backlogOf, consumer], rfl⟩
  | @next w data writer consumer slot =>
    have served : r.Serves pid := serves
    obtain rfl : w = pid := by simpa [Serves, consumer] using served
    exact ⟨served, by simp [front, backlogOf, slot, consumer], rfl⟩
  | unheld consumer =>
    refine ⟨?_, ?_, rfl⟩
    · simpa [Serves, consumer] using serves
    · simp [front, backlogOf, consumer]
  | unread | dropped => cases serves.2

/-! ### One path -/

/-- Only chunks of served paths are handed out. -/
theorem serves_of_outflow {r : Race} (s : Seated r) {m : Move} {pid : PathId}
    (h : chunksOf pid (r.outflow m) ≠ []) : (r.after m).Serves pid := by
  have mine {q : PathId} {data : Bytes} (h : chunksOf pid [(q, data)] ≠ []) : q = pid := by
    by_contra hq
    simp [chunksOf_of_ne hq] at h
  have moved : Moved r m (r.outflow m) (r.after m) := by
    refine moved_after s ?_
    cases m with
    | pump => exact absurd rfl h
    | _ => rfl
  generalize r.outflow m = out at h moved
  generalize r.after m = r' at moved ⊢
  cases moved with
  | @received q data racing slot =>
    rw [serves_racing (r := { r with slot := none }) racing]
    cases ho : r.owns q with
    | false => simp [ho] at h
    | true => exact mine (by simpa [ho] using h) ▸ ho
  | kept consumer => exact ⟨mine h, rfl⟩
  | next consumer => simpa [Serves, consumer] using mine h
  | _ => exact absurd rfl h

/-- What the consumer has got of a path, what it gets next and what waits in line make up what the path
has given. After the signal a pump may have dropped its chunk, so the line counts only before that. -/
structure Passes (r : Race) (pid : PathId) (got given : List Bytes) : Prop where
  within : got <+: given
  ahead : r.Serves pid → got ++ r.front pid <+: given
  whole : r.Serves pid → r.isHalting = false → got ++ (r.front pid ++ r.queued pid) = given

theorem inflow_pump (r : Race) (pid : PathId) (item : Option Inbound) :
    r.inflow (.pump pid item) =
      ((r.taken (.pump pid item)).map Prod.snd).elim [] fun i => chunkIn (pid, i) := by
  cases item with
  | none => rfl
  | some i => simp only [inflow, taken]; split_ifs <;> rfl

theorem inflow_of_not_pump {m : Move} (hm : m.isPump = false) (r : Race) : r.inflow m = [] := by
  cases m with
  | pump => cases hm
  | _ => rfl

/-- A path that is no longer served is never served again. -/
theorem serves_before {r : Race} (s : Seated r) {m : Move} {pid : PathId}
    (h : (r.after m).Serves pid) : r.Serves pid := by
  cases hm : m.isPump with
  | false => exact (hands_after s hm h).1
  | true =>
    obtain ⟨q, item, rfl⟩ := pump_of_isPump hm
    exact ((pumped_after r q item).flow s h).1

theorem Passes.unserved {r r' : Race} {pid : PathId} {got given more : List Bytes}
    (h : Passes r pid got given) (gone : ¬ r'.Serves pid) :
    Passes r' pid got (given ++ more) where
  within := h.within.trans (List.prefix_append _ _)
  ahead hs := absurd hs gone
  whole hs := absurd hs gone

theorem passes_after {r : Race} (s : Seated r) {pid : PathId} {got given : List Bytes}
    (h : Passes r pid got given) (m : Move) :
    Passes (r.after m) pid (got ++ chunksOf pid (r.outflow m))
      (given ++ chunksOf pid (r.inflow m)) := by
  by_cases serves : (r.after m).Serves pid
  · cases hm : m.isPump with
    | false =>
      obtain ⟨served, front, queued⟩ := hands_after s hm serves
      have ahead : got ++ chunksOf pid (r.outflow m) ++ (r.after m).front pid <+: given := by
        rw [List.append_assoc, front]
        exact h.ahead served
      rw [inflow_of_not_pump hm, chunksOf_nil, List.append_nil]
      refine ⟨(List.prefix_append _ _).trans ahead, fun _ => ahead, fun _ hh => ?_⟩
      rw [← h.whole served (isHalting_mono (later_after m r) hh), ← front, queued]
      simp only [List.append_assoc]
    | true =>
      obtain ⟨q, item, rfl⟩ := pump_of_isPump hm
      obtain ⟨served, halting, running⟩ := (pumped_after r q item).flow s serves
      rw [inflow_pump, show r.outflow (.pump q item) = [] from rfl, chunksOf_nil, List.append_nil]
      cases hh : r.isHalting with
      | true =>
        obtain ⟨nothing, front⟩ := halting hh
        rw [nothing]
        refine ⟨?_, fun _ => ?_, fun _ hh' => ?_⟩
        · simpa using h.within
        · rw [front]; simpa using h.ahead served
        · rw [isHalting_mono (later_after _ r) hh'] at hh
          cases hh
      | false =>
        have whole := running hh
        have total := h.whole served hh
        generalize chunksOf pid _ = more at whole ⊢
        have given' : got ++ ((r.after (.pump q item)).front pid ++
            (r.after (.pump q item)).queued pid) = given ++ more := by
          rw [whole, ← total]
          simp only [List.append_assoc]
        refine ⟨?_, fun _ => ?_, fun _ _ => given'⟩
        · rw [← given']; exact List.prefix_append _ _
        · rw [← given', ← List.append_assoc]; exact List.prefix_append _ _
  · have quiet : chunksOf pid (r.outflow m) = [] := by
      by_contra hne
      exact serves (serves_of_outflow s hne)
    rw [quiet, List.append_nil]
    exact h.unserved serves

end Race

end PathRace
