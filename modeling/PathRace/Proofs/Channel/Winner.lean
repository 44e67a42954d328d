import PathRace.Proofs.Race.Stream

/-! The winner of a race whose signal is never raised. Other paths may still end or fail; the winner's
reader gets exactly the chunks of the winner, in order (`Flowing.pumped`, `Flowing.read`). -/

namespace PathRace

namespace Race

/-- Path `pid` has won, its pump is running, the signal is quiet and both halves are in use. -/
structure Flowing (r : Race) (pid : PathId) : Prop where
  seated : r.Seated
  quiet : r.signal.cause = none
  consumer : ∃ backlog, r.consumer = .nominated pid backlog true true
  present : pid ∈ r.places

variable {r r' : Race} {pid q : PathId} {item : Option Inbound}

/-- The bytes that the winner's pump has taken and its reader has not got yet. -/
def stock (r : Race) (pid : PathId) : Bytes := (r.front pid ++ r.queued pid).flatten

theorem Flowing.running (h : r.Flowing pid) : r.isHalting = false := by
  rw [isHalting_eq, h.seated.heard, h.quiet]
  rfl

theorem Flowing.winner (h : r.Flowing pid) : r.winner? = some pid := by
  obtain ⟨backlog, hc⟩ := h.consumer
  exact winner?_of_consumer hc

theorem Flowing.hasReader (h : r.Flowing pid) : r.hasReader = true := by
  obtain ⟨backlog, hc⟩ := h.consumer
  exact hasReader_iff.2 ⟨pid, backlog, true, hc⟩

theorem Flowing.openWinnerWrite (h : r.Flowing pid) : r.openWinnerWrite = .granted := by
  rw [Race.openWinnerWrite, h.quiet]

theorem Flowing.table (h : r.Flowing pid) : r.pids.Nodup := by
  obtain ⟨held, table, -⟩ := h.seated.winner pid h.winner h.running
  cases held <;> simp [Race.pids, table]

theorem Flowing.prune (h : r.Flowing pid) (hq : q ≠ pid) (failed : Bool) :
    Race.prune q failed { r with reading := r.reading.erase q } =
      { r with reading := r.reading.erase q } := by
  obtain ⟨held, table, -⟩ := h.seated.winner pid h.winner h.running
  simp [Race.prune, table, Ne.symm hq]

theorem Flowing.signal (h : r.Flowing pid) (p : Pumped r q item r')
    (chunks : q = pid → ∀ i ∈ item, i.isLast = false) : r'.signal = r.signal := by
  cases p with
  | still | halted | delivered | granted | dropped => rfl
  | ended =>
    have hq : q ≠ pid := fun hq => by cases chunks hq _ rfl
    rw [h.prune hq]
  | failed =>
    have hq : q ≠ pid := fun hq => by cases chunks hq _ rfl
    rw [h.prune hq]
  | deserted running nobody =>
    rw [consumes_of_serves (serves_of_winner h.winner h.hasReader)] at nobody
    cases nobody

/-- As long as the winner does not end, a pump adds a chunk of the winner to its stock or changes
nothing. -/
theorem Flowing.pumped (h : r.Flowing pid) (p : Pumped r q item r')
    (chunks : q = pid → ∀ i ∈ item, i.isLast = false) :
    r'.Flowing pid ∧ r'.stock pid =
      r.stock pid ++ (chunksOf pid (item.elim [] fun i => chunkIn (q, i))).flatten := by
  have signal := h.signal p chunks
  have serves : r'.Serves pid := by
    obtain ⟨backlog, hc⟩ := h.consumer
    simp [Serves, p.consumer, hc]
  have running' : r'.isHalting = false := by
    rw [isHalting_eq, signal, ← isHalting_eq]
    exact h.running
  refine ⟨⟨p.seated h.seated, by rw [signal]; exact h.quiet, ?_, ?_⟩, ?_⟩
  · rw [p.consumer]
    exact h.consumer
  · refine (p.remains h.seated h.table serves running' h.present).resolve_right ?_
    rintro ⟨-, rfl, ended⟩
    cases chunks rfl .ended ended
  · rw [stock, (p.flow h.seated serves).2.2 h.running, List.flatten_append]
    rfl

theorem Flowing.chunk (h : r.Flowing pid) (reading : r.isReading pid = true) (data : Bytes) :
    (r.after (.pump pid (some (.chunk data)))).Flowing pid ∧
      (r.after (.pump pid (some (.chunk data)))).stock pid = r.stock pid ++ data := by
  have p := pumped_after r pid (some (.chunk data))
  have taken : (r.taken (.pump pid (some (.chunk data)))).map Prod.snd = some (.chunk data) := by
    simp [taken, reading]
  rw [taken] at p
  obtain ⟨flows, stock⟩ := h.pumped p fun _ i hi => by cases hi; rfl
  refine ⟨flows, ?_⟩
  simpa [chunkIn] using stock

theorem Flowing.nothing (h : r.Flowing pid) (others : q = pid → item = none) :
    (r.after (.pump q item)).Flowing pid ∧ (r.after (.pump q item)).stock pid = r.stock pid := by
  have p := pumped_after r q item
  by_cases hq : q = pid
  · rw [others hq] at p ⊢
    obtain ⟨flows, stock⟩ := h.pumped p fun _ i hi => by cases hi
    refine ⟨flows, ?_⟩
    simpa [taken] using stock
  · obtain ⟨flows, stock⟩ := h.pumped p fun same => absurd same hq
    refine ⟨flows, ?_⟩
    rw [stock]
    cases (r.taken (.pump q item)).map Prod.snd with
    | none => simp
    | some i => cases i <;> simp [chunkIn, chunksOf_of_ne hq]

theorem Flowing.read (h : r.Flowing pid) :
    r.read = (none, r) ∨
    ∃ data, r.read.1 = some (.ok (some data)) ∧ r.read.2.Flowing pid ∧
      r.stock pid = data ++ r.read.2.stock pid := by
  obtain ⟨backlog, hc⟩ := h.consumer
  obtain ⟨w, hw, reads⟩ := h.seated.reads h.hasReader
  obtain rfl : w = pid := Option.some.inj (hw.symm.trans h.winner)
  have seated := (moved_read h.seated h.hasReader).seated h.seated
  generalize r.read = result at reads seated ⊢
  obtain ⟨answer, r'⟩ := result
  dsimp only at reads seated
  cases reads with
  | @kept data rest writer consumer =>
    obtain ⟨-, rfl⟩ : backlog = data :: rest ∧ true = writer := by simpa [hc] using consumer
    refine .inr ⟨data, rfl, ⟨seated, h.quiet, ⟨rest, rfl⟩, h.present⟩, ?_⟩
    simp [stock, front, backlogOf, queued, consumer]
  | @next data writer consumer running slot =>
    refine .inr ⟨data, rfl, ⟨seated, h.quiet, ⟨backlog, hc⟩, h.present⟩, ?_⟩
    simp [stock, front, backlogOf, queued, consumer, slot]
  | stopped consumer raised =>
    have running := h.running
    simp [isHalting, raised] at running
  | ended consumer running slot dry =>
    -- the pump of the winner is still there
    obtain ⟨no_reader, no_line⟩ : r.reading = [] ∧ r.line = [] := by simpa [isDry] using dry
    have present := h.present
    simp [places, no_reader, no_line] at present
  | waits => exact .inl rfl

/-- A reader that waits while no pump can move has got everything. -/
theorem Flowing.stock_of_rest (h : r.Flowing pid) (waits : r.read.1 = none)
    (rest : ∀ q, r.canPump q false = false) : r.stock pid = [] := by
  obtain ⟨w, hw, reads⟩ := h.seated.reads h.hasReader
  rw [waits] at reads
  generalize r.read.2 = r' at reads
  cases reads with
  | waits consumer running slot =>
    have no_line := line_nil_of_rest (by simp [Race.consumes, consumer]) slot rest
    simp [stock, front, backlogOf, queued, consumer, slot, no_line]

end Race

end PathRace
