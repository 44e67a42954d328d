import PathRace.Proofs.Race.Closing

/-! The positions of the pumps. A pump either reads its path or waits in the line, and each of its moves
is a case of `Pumped`. After the nomination only chunks of the winner reach the consumer (`Seated`,
`Pumped.seated`). -/

namespace PathRace

namespace Race

/-- Whether a pump would take what its path has. -/
def isReading (r : Race) (pid : PathId) : Bool := !r.isHalting && r.reading.contains pid

/-- What a move takes from a path. -/
def taken (r : Race) : Move → Option (PathId × Inbound)
  | .pump pid (some item) => if r.isReading pid then some (pid, item) else none
  | _ => none

def Move.isPump : Move → Bool
  | .pump .. => true
  | _ => false

/-! ### Pumps -/

/-- The possible moves of a pump, with what it takes from its path. -/
inductive Pumped (r : Race) (pid : PathId) : Option Inbound → Race → Prop
  | still : Pumped r pid none r
  | halted (raised : r.isHalting = true) : Pumped r pid none (r.halt pid)
  | delivered {data : Bytes} (running : r.isHalting = false) (reading : pid ∈ r.reading) :
      Pumped r pid (some (.chunk data))
        { r with reading := r.reading.erase pid, line := r.line ++ [(pid, data)] }
  | ended (running : r.isHalting = false) (reading : pid ∈ r.reading) :
      Pumped r pid (some .ended) (prune pid false { r with reading := r.reading.erase pid })
  | failed {fault : PathFault} (running : r.isHalting = false) (reading : pid ∈ r.reading) :
      Pumped r pid (some (.failed fault)) (prune pid true { r with reading := r.reading.erase pid })
  | granted {data : Bytes} {rest : List (PathId × Bytes)} (running : r.isHalting = false)
      (first : r.line = (pid, data) :: rest) (free : r.slot = none) (owned : r.owns pid = true) :
      Pumped r pid none
        { r with line := rest, slot := some (pid, data), reading := r.reading ++ [pid] }
  | dropped {data : Bytes} {rest : List (PathId × Bytes)} (running : r.isHalting = false)
      (first : r.line = (pid, data) :: rest) (free : r.slot = none) (gone : r.owns pid = false) :
      Pumped r pid none { r with line := rest }
  | deserted (running : r.isHalting = false) (nobody : r.consumes = false) :
      Pumped r pid none ((r.leaveLine pid).raise .closed)

theorem line_of_canGrant {r : Race} {pid : PathId} (consumes : r.consumes = true)
    (can : r.canGrant pid = true) :
    ∃ data rest, r.line = (pid, data) :: rest ∧ r.slot = none := by
  unfold canGrant at can
  cases hl : r.line with
  | nil => simp [hl] at can
  | cons e rest =>
    obtain ⟨first, data⟩ := e
    obtain ⟨rfl, free⟩ : first = pid ∧ r.slot = none := by simpa [hl, consumes] using can
    exact ⟨data, rest, rfl, free⟩

theorem pumped_grant {r : Race} {pid : PathId} (running : r.isHalting = false)
    (can : r.canGrant pid = true) : Pumped r pid none (r.grant pid) := by
  unfold grant
  cases hc : r.consumes with
  | false => exact .deserted running hc
  | true =>
    obtain ⟨data, rest, line, free⟩ := line_of_canGrant hc can
    rw [line]
    cases ho : r.owns pid with
    | true => simpa [ho] using Pumped.granted running line free ho
    | false => simpa [ho] using Pumped.dropped running line free ho

theorem pumped_after (r : Race) (pid : PathId) (item : Option Inbound) :
    Pumped r pid ((r.taken (.pump pid item)).map Prod.snd) (r.after (.pump pid item)) := by
  by_cases hr : r.isReading pid = true
  · obtain ⟨running, reading⟩ : r.isHalting = false ∧ pid ∈ r.reading := by
      simpa [isReading] using hr
    cases item with
    | none =>
      have still : r.after (.pump pid none) = r := by simp [after, pump, running, reading]
      rw [still]; exact .still
    | some item =>
      have moved : r.after (.pump pid (some item)) = r.deliver pid item := by
        simp [after, canPump, pump, running, reading]
      have it : (r.taken (.pump pid (some item))).map Prod.snd = some item := by simp [taken, hr]
      rw [moved, it]
      cases item with
      | chunk data => exact .delivered running reading
      | ended => exact .ended running reading
      | failed fault => exact .failed running reading
  · have nothing : (r.taken (.pump pid item)).map Prod.snd = none := by
      cases item <;> simp [taken, hr]
    rw [nothing]
    simp only [after]
    split_ifs with can
    · unfold pump
      cases running : r.isHalting with
      | true => exact .halted running
      | false =>
        have away : pid ∉ r.reading := by simpa [isReading, running] using hr
        have grantable : r.canGrant pid = true := by simpa [canPump, running, away] using can
        simpa [away] using pumped_grant running grantable
    · exact .still

theorem after_pump_of_not_reading {r : Race} {q : PathId} (away : r.isReading q = false)
    (item : Option Inbound) : r.after (.pump q item) = r.after (.pump q none) := by
  by_cases reading : q ∈ r.reading
  · have halting : r.isHalting = true := by simpa [isReading, reading] using away
    have holds : r.holdsReader q = true := by simp [holdsReader, reading]
    simp [after, canPump, pump, halting, holds]
  · simp [after, canPump, pump, reading]

theorem prune_keeps (pid : PathId) (failed : Bool) (r : Race) :
    (r.prune pid failed).reading = r.reading ∧ (r.prune pid failed).line = r.line ∧
      (r.prune pid failed).slot = r.slot ∧ (r.prune pid failed).consumer = r.consumer := by
  unfold prune
  split
  · dsimp only
    split_ifs <;> exact ⟨rfl, rfl, rfl, rfl⟩
  · dsimp only
    split_ifs <;> exact ⟨rfl, rfl, rfl, rfl⟩
  · exact ⟨rfl, rfl, rfl, rfl⟩

theorem Pumped.consumer {r r' : Race} {pid : PathId} {item : Option Inbound}
    (h : Pumped r pid item r') : r'.consumer = r.consumer := by
  cases h with
  | ended => exact (prune_keeps pid false { r with reading := r.reading.erase pid }).2.2.2
  | failed => exact (prune_keeps pid true { r with reading := r.reading.erase pid }).2.2.2
  | still | halted | delivered | granted | dropped | deserted => rfl

theorem Pumped.pids {r r' : Race} {pid : PathId} {item : Option Inbound}
    (h : Pumped r pid item r') : r'.pids.Sublist r.pids := by
  have pruned (failed : Bool) :
      (prune pid failed { r with reading := r.reading.erase pid }).pids.Sublist r.pids := by
    rw [pids_prune]; exact List.erase_sublist
  cases h with
  | ended => exact pruned false
  | failed => exact pruned true
  | still | halted | delivered | granted | dropped | deserted => exact .refl _

/-! ### Positions of the pumps -/

/-- The paths of all pumps, those that read and those in line. -/
def places (r : Race) : List PathId := r.reading ++ r.line.map Prod.fst

/-- Every pump is at one place only, and after the nomination only the winner's chunks reach the slot. -/
structure Seated (r : Race) : Prop where
  heard : r.signal.stopped = r.signal.cause.isSome
  distinct : r.places.Nodup
  slot : ∀ w, r.winner? = some w → ∀ e ∈ r.slot, e.1 = w
  winner : ∀ w, r.winner? = some w → r.isHalting = false → ∃ held, r.ownership = .nominated w held ∧
    (held = true ∨ w ∉ r.places)

theorem isHalting_eq (r : Race) : r.isHalting = r.signal.stopped := by
  cases h : r.signal.stopped <;> simp [isHalting, Signal.heard, h]

theorem isHalting_mono {r r' : Race} (later : r.signal.Later r'.signal) (h : r'.isHalting = false) :
    r.isHalting = false := by
  rw [isHalting_eq] at h ⊢
  rcases later with he | ⟨c, he⟩
  · rw [he] at h; exact h
  · cases hc : r.signal.cause with
    | some d => rw [he, Signal.raise_of_cause hc] at h; exact h
    | none => rw [he, Signal.raise_of_none hc] at h; cases h

theorem isHalting_raise {r : Race} (heard : r.signal.stopped = r.signal.cause.isSome) (c : Cause) :
    (r.raise c).isHalting = true := by
  have stopped := (Signal.Later.raised c r.signal).stopped heard
  rw [isHalting_eq, raise, stopped, Signal.cause_raise]
  rfl

theorem cause_of_running {r : Race} (heard : r.signal.stopped = r.signal.cause.isSome)
    (running : r.isHalting = false) : r.signal.cause = none := by
  rw [isHalting_eq, heard] at running
  simpa using running

theorem places_prune (pid : PathId) (failed : Bool) (r : Race) :
    (prune pid failed { r with reading := r.reading.erase pid }).places =
      r.reading.erase pid ++ r.line.map Prod.fst := by
  obtain ⟨hr, hl, -, -⟩ := prune_keeps pid failed { r with reading := r.reading.erase pid }
  rw [places, hr, hl]

theorem sublist_without (pid : PathId) (r : Race) :
    (r.reading.erase pid ++ r.line.map Prod.fst).Sublist r.places :=
  List.erase_sublist.append (.refl _)

theorem Pumped.places {r r' : Race} {pid : PathId} {item : Option Inbound}
    (h : Pumped r pid item r') : r'.places.Subperm r.places := by
  cases h with
  | still => exact .refl _
  | halted raised => exact (List.erase_sublist.append (List.filter_sublist.map _)).subperm
  | delivered running reading =>
    have perm : (r.reading.erase pid ++ (r.line.map Prod.fst ++ [pid])).Perm r.places := by
      rw [← List.append_assoc]
      exact List.perm_append_comm.trans
        ((List.perm_cons_erase reading).symm.append_right (r.line.map Prod.fst))
    simpa [Race.places] using perm.subperm
  | ended running reading => rw [places_prune]; exact (sublist_without pid r).subperm
  | failed running reading => rw [places_prune]; exact (sublist_without pid r).subperm
  | granted running first free owned =>
    simpa [Race.places, first] using List.Subperm.refl _
  | dropped running first free gone =>
    simp only [Race.places, first]
    exact ((List.Sublist.refl _).append (List.sublist_cons_self _ _)).subperm
  | deserted running nobody =>
    exact ((List.Sublist.refl _).append (List.filter_sublist.map _)).subperm

theorem Seated.left {r : Race} (s : Seated r) {pid : PathId} (reading : pid ∈ r.reading) :
    pid ∉ r.reading.erase pid ++ r.line.map Prod.fst := by
  have split := List.nodup_append.1 s.distinct
  intro hm
  rcases List.mem_append.1 hm with hm | hm
  · exact (split.1.mem_erase_iff.1 hm).1 rfl
  · exact split.2.2 pid reading pid hm rfl

theorem Seated.same {r r' : Race} (s : Seated r) (later : r.signal.Later r'.signal)
    (places : r'.places = r.places) (slot : ∀ e ∈ r'.slot, e ∈ r.slot)
    (winner : ∀ w, r'.winner? = some w → r.winner? = some w)
    (ownership : ∀ w, r'.winner? = some w → r'.isHalting = false → r'.ownership = r.ownership) :
    Seated r' where
  heard := later.stopped s.heard
  distinct := by rw [places]; exact s.distinct
  slot w hw e he := s.slot w (winner w hw) e (slot e he)
  winner w hw hh := by
    rw [places, ownership w hw hh]
    exact s.winner w (winner w hw) (isHalting_mono later hh)

theorem Seated.moved {r r' : Race} (s : Seated r) (later : r.signal.Later r'.signal)
    (places : r'.places.Subperm r.places) (slot : ∀ w, r.winner? = some w → ∀ e ∈ r'.slot, e.1 = w)
    (winner : r'.consumer = r.consumer) (ownership : r'.isHalting = false → r'.ownership = r.ownership) :
    Seated r' where
  heard := later.stopped s.heard
  distinct := by
    obtain ⟨l, perm, sub⟩ := places
    exact perm.nodup_iff.1 (sub.nodup s.distinct)
  slot w hw := slot w (by simpa [winner?, winner] using hw)
  winner w hw hh := by
    have before : r.winner? = some w := by simpa [winner?, winner] using hw
    obtain ⟨held, ho, hl⟩ := s.winner w before (isHalting_mono later hh)
    exact ⟨held, by rw [ownership hh, ho], hl.imp_right fun h hm => h (places.subset hm)⟩

theorem Seated.owned {r : Race} (s : Seated r) {w pid : PathId} (hw : r.winner? = some w)
    (running : r.isHalting = false) (ho : r.owns pid = true) : pid = w := by
  obtain ⟨held, table, -⟩ := s.winner w hw running
  cases held <;> simp [owns, Race.pids, table] at ho
  exact ho

theorem Seated.prune {r : Race} (s : Seated r) {pid : PathId} (failed : Bool)
    (running : r.isHalting = false) (reading : pid ∈ r.reading) :
    Seated (prune pid failed { r with reading := r.reading.erase pid }) := by
  have later := signal_prune pid failed { r with reading := r.reading.erase pid }
  obtain ⟨-, -, hs, hc⟩ := prune_keeps pid failed { r with reading := r.reading.erase pid }
  have before (w : PathId) (hw : (Race.prune pid failed
      { r with reading := r.reading.erase pid }).winner? = some w) : r.winner? = some w := by
    simpa [winner?, hc] using hw
  refine ⟨later.stopped s.heard, ?_, ?_, ?_⟩
  · rw [places_prune]; exact (sublist_without pid r).nodup s.distinct
  · intro w hw
    rw [hs]
    exact s.slot w (before w hw)
  · intro w hw hh
    obtain ⟨held, table, hl⟩ := s.winner w (before w hw) running
    rw [places_prune]
    by_cases hp : w = pid
    · subst hp
      refine ⟨false, ?_, .inr (s.left reading)⟩
      cases held <;> cases failed <;> simp [Race.prune, table, closing, raise]
    · refine ⟨held, ?_, hl.imp_right fun h hm => h ((sublist_without pid r).subset hm)⟩
      simp [Race.prune, table, hp]

theorem Pumped.seated {r r' : Race} {pid : PathId} {item : Option Inbound}
    (h : Pumped r pid item r') (s : Seated r) : Seated r' := by
  have places := h.places
  cases h with
  | still => exact s
  | halted raised => exact s.moved (.refl _) places s.slot rfl fun _ => rfl
  | delivered running reading => exact s.moved (.refl _) places s.slot rfl fun _ => rfl
  | ended running reading => exact s.prune false running reading
  | failed running reading => exact s.prune true running reading
  | @granted data rest running first free owned =>
    refine s.moved (.refl _) places ?_ rfl fun _ => rfl
    rintro w hw e he
    obtain rfl : (pid, data) = e := Option.some.inj he
    exact s.owned hw running owned
  | dropped running first free gone =>
    refine s.moved (.refl _) places ?_ rfl fun _ => rfl
    intro w hw e he
    rw [free] at he
    cases he
  | deserted running nobody =>
    have halting := isHalting_raise (r := r.leaveLine pid) s.heard .closed
    refine s.moved (.raised .closed _) places s.slot rfl fun hh => ?_
    rw [halting] at hh
    cases hh

end Race

end PathRace
