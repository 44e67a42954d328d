import PathRace.Proofs.Race.Stream

/-! How many chunks a race holds. Every chunk that a pump has taken is handed out, discarded on one of
the occasions that `discards` lists, or still in the race: held by its pump, in the slot or in the
winner's backlog (`balanced_after`, `Accounted.run`). A pump holds at most one chunk, so before the
nomination there is at most one chunk for each path and one in the slot (`Accounted.load`). -/

namespace PathRace

namespace Race

variable {r : Race}

/-! ### Where a chunk can be -/

/-- The chunks kept for the winner's reader, under the number of the winner. -/
def kept (r : Race) : List (PathId × Bytes) :=
  match r.consumer with
  | .nominated pid backlog _ _ => backlog.map (pid, ·)
  | _ => []

/-- All chunks in the race. -/
def load (r : Race) : List (PathId × Bytes) := r.kept ++ (r.slot.toList ++ r.line)

/-- Whether a pump drops the chunk it holds when it moves: it hears the signal, the consumer is gone, or
its path has left the race. -/
def givesUp (r : Race) (pid : PathId) : Bool :=
  r.isHalting || (r.canGrant pid && !(r.consumes && r.owns pid))

/-- The chunk in the slot that a nomination of `pid` does not keep. -/
def passedOver (r : Race) (pid : PathId) : List (PathId × Bytes) :=
  match (r.nominate pid).1 with
  | .ok _ => r.slot.toList.filter (·.1 != pid)
  | .error _ => r.slot.toList

/-- The chunks that a move discards. -/
def discards (r : Race) : Move → List (PathId × Bytes)
  | .pump pid _ => if r.givesUp pid then r.line.filter (·.1 == pid) else []
  | .receive => if r.isRacing && !r.isHalting then r.slot.toList.filter (!r.owns ·.1) else []
  | .nominate pid => if r.isRacing then r.passedOver pid else []
  | .abandon => if r.isRacing then r.slot.toList else []
  | .dropReader => if r.hasReader then r.kept ++ r.slot.toList else []
  | .raise _ | .sweep | .openWrite _ | .failWrite _ | .read | .failWinnerWrite _ | .dropWriter => []

def discarded : List Move → Race → List (PathId × Bytes)
  | [], _ => []
  | m :: ms, r => r.discards m ++ discarded ms (r.after m)

/-! ### The account of a move -/

/-- The chunks before the move and those taken in are those handed out, those discarded and those left. -/
def Balanced (r : Race) (m : Move) (r' : Race) : Prop :=
  (r.load ++ r.inflow m).Perm (r.outflow m ++ (r.discards m ++ r'.load))

theorem load_congr {r' : Race} (consumer : r'.consumer = r.consumer) (slot : r'.slot = r.slot)
    (line : r'.line = r.line) : r'.load = r.load := by
  simp only [load, kept, consumer, slot, line]

theorem load_prune (pid : PathId) (failed : Bool) (r : Race) : (r.prune pid failed).load = r.load := by
  obtain ⟨-, line, slot, consumer⟩ := prune_keeps pid failed r
  exact load_congr consumer slot line

theorem consumer_of_racing (racing : r.isRacing = true) : r.consumer = .racing := by
  simpa [isRacing] using racing

theorem kept_of_racing (racing : r.isRacing = true) : r.kept = [] := by
  simp [kept, consumer_of_racing racing]

theorem load_leave (r : Race) : r.leave.load = r.line := by simp [load, kept, leave, raise]

theorem Balanced.of_load {m : Move} {r' : Race} (inflow : r.inflow m = []) (outflow : r.outflow m = [])
    (discards : r.discards m = []) (same : r'.load = r.load) : Balanced r m r' := by
  rw [Balanced, inflow, outflow, discards, same, List.append_nil]
  exact .refl _

theorem Balanced.of_split {m : Move} {r' : Race} (inflow : r.inflow m = []) (outflow : r.outflow m = [])
    (split : r.load.Perm (r.discards m ++ r'.load)) : Balanced r m r' := by
  rw [Balanced, inflow, outflow, List.append_nil]
  exact split

theorem perm_sorted_out (pid : PathId) (before l : List (PathId × Bytes)) :
    (before ++ l).Perm (l.filter (·.1 == pid) ++ (before ++ l.filter (·.1 != pid))) :=
  calc
    List.Perm (before ++ l) (before ++ (l.filter (·.1 == pid) ++ l.filter (·.1 != pid))) :=
      (List.filter_append_perm (fun e => e.1 == pid) l).symm.append_left before
    List.Perm _ (l.filter (·.1 == pid) ++ (before ++ l.filter (·.1 != pid))) :=
      List.perm_append_comm_assoc ..

/-! ### Pumps -/

theorem mem_line_of_canGrant {pid : PathId} (can : r.canGrant pid = true) :
    pid ∈ r.line.map Prod.fst := by
  cases consumes : r.consumes with
  | true =>
    obtain ⟨data, rest, line, -⟩ := line_of_canGrant consumes can
    simp [line]
  | false =>
    unfold canGrant at can
    cases hl : r.line with
    | nil => simp [hl] at can
    | cons e rest =>
      obtain ⟨e, he, same⟩ := List.any_eq_true.1 (by
        simpa only [hl, consumes, Bool.false_eq_true, if_false] using can)
      exact List.mem_map.2 ⟨e, he, by simpa using same⟩

theorem Seated.not_reading (s : Seated r) {pid : PathId} (line : pid ∈ r.line.map Prod.fst) :
    pid ∉ r.reading :=
  fun reading => (List.nodup_append.1 s.distinct).2.2 pid reading pid line rfl

theorem Seated.isReading_of_line (s : Seated r) {pid : PathId} (line : pid ∈ r.line.map Prod.fst) :
    r.isReading pid = false := by simp [isReading, s.not_reading line]

theorem taken_of_not_reading {pid : PathId} (still : r.isReading pid = false) (item : Option Inbound) :
    r.taken (.pump pid item) = none := by
  cases item with
  | none => rfl
  | some item => simp only [taken, still, Bool.false_eq_true, if_false]

theorem Seated.hand (s : Seated r) (pid : PathId) : (r.queued pid).length ≤ 1 := by
  have distinct : (r.line.map Prod.fst).Nodup := (List.nodup_append.1 s.distinct).2.1
  have once := List.nodup_iff_count_le_one.1 distinct pid
  rw [List.count_eq_countP, List.countP_map, List.countP_eq_length_filter] at once
  simpa [queued, chunksOf, Function.comp_def] using once

theorem halted_after {pid : PathId} {item : Option Inbound} (halting : r.isHalting = true) :
    (r.after (.pump pid item)).load = r.kept ++ (r.slot.toList ++ r.line.filter (·.1 != pid)) := by
  simp only [after, canPump, pump, halting, Bool.true_and, if_true]
  split_ifs with can
  · rfl
  · -- a pump that cannot move has nothing to give up
    have away : r.line.filter (·.1 != pid) = r.line := by
      refine List.filter_eq_self.2 fun e he => ?_
      have absent : r.line.any (·.1 == pid) = false := by
        simp only [holdsReader, Bool.or_eq_true, not_or, Bool.not_eq_true] at can
        exact can.1.1.2
      simpa using List.any_eq_false.1 absent e he
    rw [away, load]

theorem inflow_of_not_reading {pid : PathId} (still : r.isReading pid = false) (item : Option Inbound) :
    r.inflow (.pump pid item) = [] := by
  rw [inflow, taken_of_not_reading still]
  rfl

theorem balanced_of_halting {pid : PathId} (halting : r.isHalting = true) (item : Option Inbound) :
    Balanced r (.pump pid item) (r.after (.pump pid item)) := by
  refine .of_split (inflow_of_not_reading (by simp [isReading, halting]) item) rfl ?_
  rw [halted_after halting]
  simpa [discards, givesUp, halting, load] using
    perm_sorted_out pid (r.kept ++ r.slot.toList) r.line

theorem Seated.balanced_of_reading (s : Seated r) {pid : PathId} (running : r.isHalting = false)
    (reading : pid ∈ r.reading) (item : Option Inbound) :
    Balanced r (.pump pid item) (r.after (.pump pid item)) := by
  have empty : r.discards (.pump pid item) = [] := by
    have cannot : r.canGrant pid = false := by
      by_contra can
      exact s.not_reading (mem_line_of_canGrant (by simpa using can)) reading
    simp [discards, givesUp, running, cannot]
  cases item with
  | none =>
    refine .of_load rfl rfl empty ?_
    simp [after, pump, running, reading]
  | some item =>
    have delivered : r.after (.pump pid (some item)) = r.deliver pid item := by
      simp [after, canPump, pump, running, reading]
    have inflow : r.inflow (.pump pid (some item)) = chunkIn (pid, item) := by
      simp [inflow, taken, isReading, running, reading]
    rw [delivered]
    cases item with
    | chunk data =>
      rw [Balanced, inflow, empty]
      simp [outflow, chunkIn, deliver, load, kept]
    | ended =>
      exact .of_load inflow rfl empty (load_prune pid false { r with reading := r.reading.erase pid })
    | failed =>
      exact .of_load inflow rfl empty (load_prune pid true { r with reading := r.reading.erase pid })

theorem Seated.load_grant (s : Seated r) {pid : PathId} (can : r.canGrant pid = true) :
    r.load.Perm ((if r.consumes && r.owns pid then [] else r.line.filter (·.1 == pid)) ++
      (r.grant pid).load) := by
  cases hc : r.consumes with
  | false =>
    simpa [grant, hc, load, kept, raise, leaveLine] using
      perm_sorted_out pid (r.kept ++ r.slot.toList) r.line
  | true =>
    obtain ⟨data, rest, line, free⟩ := line_of_canGrant hc can
    cases ho : r.owns pid with
    | true => simp [grant, hc, line, ho, load, kept, free]
    | false =>
      have alone : rest.filter (·.1 == pid) = [] := by
        have distinct := (List.nodup_append.1 s.distinct).2.1
        rw [line, List.map_cons, List.nodup_cons] at distinct
        refine List.filter_eq_nil_iff.2 fun e he same => distinct.1 ?_
        exact List.mem_map.2 ⟨e, he, by simpa using same⟩
      simp [grant, hc, line, ho, load, kept, free, alone]

theorem balanced_pump (s : Seated r) (pid : PathId) (item : Option Inbound) :
    Balanced r (.pump pid item) (r.after (.pump pid item)) := by
  cases running : r.isHalting with
  | true => exact balanced_of_halting running item
  | false =>
    by_cases reading : pid ∈ r.reading
    · exact s.balanced_of_reading running reading item
    · have still : r.isReading pid = false := by simp [isReading, reading]
      have nothing := inflow_of_not_reading still item
      cases can : r.canGrant pid with
      | false =>
        refine .of_load nothing rfl (by simp [discards, givesUp, running, can]) ?_
        simp [after, canPump, running, reading, can]
      | true =>
        have granted : r.after (.pump pid item) = r.grant pid := by
          simp [after, canPump, pump, running, reading, can]
        have discarded : r.discards (.pump pid item) =
            if r.consumes && r.owns pid then [] else r.line.filter (·.1 == pid) := by
          cases hc : r.consumes <;> cases ho : r.owns pid <;>
            simp [discards, givesUp, running, can, hc, ho]
        refine .of_split nothing rfl ?_
        rw [granted, discarded]
        exact s.load_grant can

/-! ### The consumer -/

theorem balanced_receive (r : Race) : Balanced r .receive (r.after .receive) := by
  cases racing : r.isRacing with
  | false =>
    exact .of_load rfl (by simp [outflow, racing]) (by simp [discards, racing]) (by simp [after, racing])
  | true =>
    have empty : r.kept = [] := kept_of_racing racing
    have handed : r.outflow .receive = r.receiveChunk := by simp [outflow, racing]
    have left : r.after .receive = r.receive.2 := by simp [after, racing]
    rw [Balanced, handed, left]
    unfold receiveChunk receive
    cases heard : r.signal.heard with
    | some cause => simp [discards, isHalting, heard, inflow, taken]
    | none =>
      cases slot : r.slot with
      | none =>
        dsimp only
        split_ifs <;> simp [discards, slot, inflow, taken]
      | some e =>
        obtain ⟨pid, data⟩ := e
        have still : kept { r with slot := none } = [] :=
          kept_of_racing (r := { r with slot := none }) racing
        have running : r.isHalting = false := by simp [isHalting, heard]
        cases owned : r.owns pid <;>
          simp [discards, racing, running, owned, load, empty, still, slot, inflow, taken]

theorem balanced_nominate (pid : PathId) (r : Race) :
    Balanced r (.nominate pid) (r.after (.nominate pid)) := by
  cases racing : r.isRacing with
  | false => exact .of_load rfl rfl (by simp [discards, racing]) (by simp [after, racing])
  | true =>
    have empty : r.kept = [] := kept_of_racing racing
    have left : r.after (.nominate pid) = (r.nominate pid).2 := by simp [after, racing]
    have lost : r.discards (.nominate pid) = r.passedOver pid := by simp [discards, racing]
    refine .of_split rfl rfl ?_
    rw [left, lost, load, empty, passedOver]
    rcases nominate_cases pid r with ⟨pids, -, -, -, he⟩ | ⟨pids, -, -, he⟩ | ⟨-, he⟩
    · rw [he]
      have mine : ((r.slot.toList.filter (·.1 == pid)).map Prod.snd).map (pid, ·) =
          r.slot.toList.filter (·.1 == pid) := by
        rw [List.map_map]
        refine (List.map_congr_left fun e he => ?_).trans (List.map_id _)
        have same : e.1 = pid := by simpa using (List.mem_filter.1 he).2
        rw [← same]
        rfl
      have sorted := (perm_sorted_out pid [] r.slot.toList).trans List.perm_append_comm
      simp only [load, kept, mine]
      simpa [Race.decided, closing] using sorted.append_right r.line
    · rw [he, abandon_of_racing (r := (r.decided pid pids).raise (.pathFailed pid)) racing, load_leave]
      exact .refl _
    · rw [he, abandon_of_racing racing, load_leave]
      exact .refl _

theorem balanced_abandon (r : Race) : Balanced r .abandon (r.after .abandon) := by
  cases racing : r.isRacing with
  | false =>
    refine .of_load rfl rfl (by simp [discards, racing]) ?_
    rw [after, abandon_of_not_racing racing]
  | true =>
    refine .of_split rfl rfl ?_
    rw [after, abandon_of_racing racing, load_leave, load, kept_of_racing racing]
    simp [discards, racing]

theorem Seated.balanced_read (s : Seated r) : Balanced r .read (r.after .read) := by
  cases reader : r.hasReader with
  | false => exact .of_load rfl (by simp [outflow, reader]) rfl (by simp [after, reader])
  | true =>
    obtain ⟨w, won, reads⟩ := s.reads reader
    have handed : r.outflow .read = r.readChunk := by simp [outflow, reader]
    have left : r.after .read = r.read.2 := by simp [after, reader]
    rw [Balanced, handed, left, readChunk, won]
    generalize r.read.1 = answer at reads ⊢
    generalize r.read.2 = r' at reads ⊢
    cases reads with
    | kept consumer => simp [load, Race.kept, consumer, inflow, taken, discards]
    | next consumer running slot => simp [load, Race.kept, consumer, slot, inflow, taken, discards]
    | stopped | ended | waits => simp [inflow, taken, discards]

theorem balanced_dropReader (r : Race) : Balanced r .dropReader (r.after .dropReader) := by
  cases reader : r.hasReader with
  | false => exact .of_load rfl rfl (by simp [discards, reader]) (by simp [after, reader])
  | true =>
    obtain ⟨w, backlog, writer, consumer⟩ := hasReader_iff.1 reader
    have rest : r.dropReader.load = r.line := by
      cases writer <;> simp [dropReader, consumer, load, kept, raise]
    have left : r.after .dropReader = r.dropReader := by simp [after, reader]
    refine .of_split rfl rfl ?_
    rw [left, rest]
    simp [discards, reader, load]

theorem load_dropWriter (r : Race) : r.dropWriter.load = r.load := by
  unfold dropWriter
  cases hc : r.consumer with
  | nominated w backlog reader writer => cases reader <;> simp [load, kept, hc, raise]
  | racing | gone => rfl

/-! ### Every move -/

/-- Every move accounts for every chunk. -/
theorem balanced_after (s : Seated r) (m : Move) : Balanced r m (r.after m) := by
  cases m with
  | pump pid item => exact balanced_pump s pid item
  | receive => exact balanced_receive r
  | nominate pid => exact balanced_nominate pid r
  | abandon => exact balanced_abandon r
  | read => exact s.balanced_read
  | dropReader => exact balanced_dropReader r
  | raise cause => exact .of_load rfl rfl rfl rfl
  | sweep =>
    refine .of_load rfl rfl rfl ?_
    simp only [after, sweep]
    split_ifs
    · cases r.signal.heard <;> rfl
    · rfl
  | openWrite pid =>
    refine .of_load rfl rfl rfl ?_
    obtain ⟨writers, he⟩ := openWrite_keeps pid r
    simp only [after]
    split_ifs
    · rw [he]; rfl
    · rfl
  | failWrite pid =>
    refine .of_load rfl rfl rfl ?_
    simp only [after, failWrite]
    split_ifs
    · exact load_prune pid true { r with writers := r.writers.erase pid }
    · rfl
  | failWinnerWrite fault =>
    refine .of_load rfl rfl rfl ?_
    simp only [after]
    split_ifs
    · cases r.winner? <;> rfl
    · rfl
  | dropWriter =>
    refine .of_load rfl rfl rfl ?_
    simp only [after]
    split_ifs
    · exact load_dropWriter r
    · rfl

/-- While the race is on and the signal is quiet, only chunks of paths that have left the race are
discarded. -/
theorem not_owned_of_discards {m : Move} (racing : r.isRacing = true) (running : r.isHalting = false)
    (on : (r.after m).isRacing = true) : ∀ e ∈ r.discards m, e.1 ∉ r.pids := by
  intro e lost
  have unowned {pid : PathId} (gone : r.owns pid = false) : pid ∉ r.pids := by simpa [owns] using gone
  cases m with
  | pump pid item =>
    have consumes : r.consumes = true := by simp [Race.consumes, consumer_of_racing racing]
    simp only [discards, givesUp, running, consumes, Bool.false_or, Bool.true_and] at lost
    split_ifs at lost with gone
    · have mine : e.1 = pid := by simpa using (List.mem_filter.1 lost).2
      rw [mine]
      exact unowned (by simpa using (Bool.and_eq_true_iff.1 gone).2)
    · cases lost
  | receive =>
    simp only [discards, racing, running, Bool.not_false, Bool.and_true, if_true] at lost
    exact unowned (by simpa using (List.mem_filter.1 lost).2)
  | nominate pid =>
    simp only [after, racing, if_true] at on
    rcases nominate_cases pid r with ⟨pids, -, -, -, he⟩ | ⟨pids, -, -, he⟩ | ⟨-, he⟩
    · rw [he] at on; cases on
    · rw [he, abandon_of_racing (r := (r.decided pid pids).raise (.pathFailed pid)) racing] at on
      cases on
    · rw [he, abandon_of_racing racing] at on; cases on
  | abandon => rw [after, abandon_of_racing racing] at on; cases on
  | dropReader =>
    have nobody : r.hasReader = false := by simp [hasReader, consumer_of_racing racing]
    simp [discards, nobody] at lost
  | _ => cases lost

/-! ### Whole runs -/

theorem places_after (s : Seated r) (m : Move) : (r.after m).places.Subperm r.places := by
  cases hm : m.isPump with
  | false => rw [(moved_after s hm).places]
  | true =>
    obtain ⟨pid, item, rfl⟩ := pump_of_isPump hm
    exact (pumped_after r pid item).places

/-- The invariant of the chunks of a race, with those discarded so far. -/
structure Accounted (pids : List PathId) (lost : List (PathId × Bytes)) (t : Tape) : Prop where
  seated : Seated t.race
  total : t.delivered.Perm (t.yielded ++ (lost ++ t.race.load))
  places : t.race.places.Subperm pids

variable {pids : List PathId} {lost : List (PathId × Bytes)} {t : Tape}

theorem Accounted.after (h : Accounted pids lost t) (m : Move) :
    Accounted pids (lost ++ t.race.discards m) (t.after m) where
  seated := seated_after h.seated m
  total := by
    refine List.perm_iff_count.2 fun e => ?_
    have before := h.total.count_eq e
    have step : (t.race.load ++ t.race.inflow m).count e = _ := (balanced_after h.seated m).count_eq e
    simp only [Tape.after, List.count_append] at before step ⊢
    omega
  places := (places_after h.seated m).trans h.places

theorem Accounted.run (h : Accounted pids lost t) (ms : List Move) :
    Accounted pids (lost ++ discarded ms t.race) (t.run ms) := by
  induction ms generalizing lost t with
  | nil => simpa [discarded, Tape.run] using h
  | cons m ms ih =>
    rw [discarded, ← List.append_assoc]
    exact ih (h.after m)

theorem start_holds (before : List Cause) (pids : List PathId) :
    (start before pids).2.load = [] ∧ (start before pids).2.places.Subperm pids := by
  unfold start enter
  rw [foldl_raise before idle]
  generalize (before.foldl (fun r c => r.raise c) idle).signal = signal
  split_ifs
  · exact ⟨rfl, List.nil_subperm⟩
  · cases firstRepeated [] pids with
    | some pid => exact ⟨rfl, List.nil_subperm⟩
    | none => exact ⟨rfl, by simpa [Race.places] using List.Subperm.refl pids⟩

theorem accounted_opened (before : List Cause) (pids : List PathId) :
    Accounted pids [] (Tape.opened before pids) := by
  obtain ⟨empty, pumps⟩ := start_holds before pids
  refine ⟨(intact_opened before pids).seated, ?_, pumps⟩
  simp [Tape.opened, empty]

theorem accounted_run (before : List Cause) (pids : List PathId) (ms : List Move) :
    Accounted pids (discarded ms (start before pids).2) ((Tape.opened before pids).run ms) :=
  (accounted_opened before pids).run ms

theorem Accounted.line (h : Accounted pids lost t) : t.race.line.length ≤ pids.length := by
  have all := h.places.length_le
  rw [Race.places, List.length_append, List.length_map] at all
  omega

theorem load_of_unwon (unwon : r.winner? = none) : r.load = r.slot.toList ++ r.line := by
  unfold winner? at unwon
  cases hc : r.consumer with
  | nominated => simp [hc] at unwon
  | racing | gone => simp [load, kept, hc]

theorem Accounted.load (h : Accounted pids lost t) (unwon : t.race.winner? = none) :
    t.race.load.length ≤ pids.length + 1 := by
  have line := h.line
  have slot : t.race.slot.toList.length ≤ 1 := by cases t.race.slot <;> simp
  rw [load_of_unwon unwon, List.length_append]
  omega

end Race

end PathRace
