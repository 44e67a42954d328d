import PathRace.Proofs.Station.Pipe

/-! The byte count of a station. It grows when a write hands over its chunk and shrinks when the sink
finishes with one, sent or not, so it is the total length of the chunks in between. If each write
returns before the next one begins, at most one chunk is added to a count below the high watermark
(`counts_what_is_held`). -/

namespace PathRace

namespace Backlog

variable {b : Backlog} {n : Nat}

theorem buffered_enqueue (h : b.buffered.toNat + n < 2 ^ 64) :
    (b.enqueue (UInt64.ofNat n)).buffered.toNat = b.buffered.toNat + n := by
  have small : (UInt64.ofNat n).toNat = n := UInt64.toNat_ofNat_of_lt' ((Nat.le_add_left ..).trans_lt h)
  rw [enqueue, UInt64.toNat_add, small, Nat.mod_eq_of_lt h]

theorem buffered_drain (h : n ≤ b.buffered.toNat) :
    (b.drain (UInt64.ofNat n)).buffered.toNat = b.buffered.toNat - n := by
  have small : (UInt64.ofNat n).toNat = n := UInt64.toNat_ofNat_of_lt' (h.trans_lt b.buffered.toNat_lt)
  unfold drain
  dsimp only
  split_ifs with all
  · rw [UInt64.le_iff_toNat_le, small] at all
    simp; omega
  · rw [UInt64.le_iff_toNat_le, small] at all
    rw [UInt64.toNat_sub_of_le _ _ (UInt64.le_iff_toNat_le.2 (by omega)), small]

end Backlog

theorem Watermarks.low_lt_high {marks : Watermarks} (valid : marks.check = .ok ()) :
    marks.low < marks.high := by
  unfold check at valid
  split_ifs at valid with reversed
  exact UInt64.not_le.1 reversed

namespace Station

variable {s : Station} {notes more : List Note}

/-! ### The account -/

/-- The chunks that have been accepted and not finished by the sink. -/
def unfinished (notes : List Note) : List Bytes := (accepted notes).drop (finished notes).length

def total (chunks : List Bytes) : Nat := (chunks.map List.length).sum

/-- The chunks that are held at any time fit into memory, so that their total length is below `2 ^ 64`. -/
def Fits (notes : List Note) : Prop := ∀ before, before <+: notes → total (unfinished before) < 2 ^ 64

/-- The lengths of the chunks held, that of the sink's first. -/
def sizes (s : Station) : List Nat := s.sending.toList ++ s.outbox.map List.length

/-- The finished chunks are a prefix of the accepted ones, and the count is the length of the rest. -/
structure Counted (notes : List Note) (b : Backlog) (rest : List Nat) : Prop where
  account : (accepted notes).map List.length = finished notes ++ rest
  count : b.buffered.toNat = rest.sum

variable {b : Backlog} {rest : List Nat}

theorem map_unfinished (account : (accepted notes).map List.length = finished notes ++ rest) :
    (unfinished notes).map List.length = rest := by
  rw [unfinished, List.map_drop, account, List.drop_left]

theorem Counted.finished (h : Counted notes b rest) :
    finished notes = ((accepted notes).take (finished notes).length).map List.length := by
  rw [List.map_take, h.account, List.take_left]

theorem Fits.of_prefix (h : Fits notes) {before : List Note} (hb : before <+: notes) : Fits before :=
  fun _ earlier => h _ (earlier.trans hb)

theorem Fits.of_append (h : Fits (notes ++ more)) : Fits notes := h.of_prefix (List.prefix_append ..)

theorem fits_of_total (h : total (accepted notes) < 2 ^ 64) : Fits notes := by
  intro before hb
  have some_of : (unfinished before).Sublist (accepted notes) :=
    (List.drop_sublist ..).trans (hb.sublist.filterMap _)
  exact ((some_of.map List.length).sum_le_sum fun _ _ => Nat.zero_le _).trans_lt h

theorem Counted.account_append {rest' : List Nat} (h : Counted notes b rest)
    (next : rest ++ (accepted more).map List.length = Station.finished more ++ rest') :
    (accepted (notes ++ more)).map List.length = Station.finished (notes ++ more) ++ rest' := by
  rw [accepted_append, finished_append, List.map_append, h.account, List.append_assoc, next,
    List.append_assoc]

theorem Counted.take {chunk : Bytes} (h : Counted notes b rest) (fits : Fits (notes ++ [.accepted chunk])) :
    Counted (notes ++ [.accepted chunk]) (b.enqueue (UInt64.ofNat chunk.length))
      (rest ++ [chunk.length]) := by
  have account : (accepted (notes ++ [.accepted chunk])).map List.length =
      Station.finished (notes ++ [.accepted chunk]) ++ (rest ++ [chunk.length]) := h.account_append rfl
  have room := fits _ List.prefix_rfl
  rw [total, map_unfinished account, List.sum_append_nat, List.sum_singleton, ← h.count] at room
  refine ⟨account, ?_⟩
  rw [List.sum_append_nat, List.sum_singleton, ← h.count]
  exact Backlog.buffered_enqueue room

theorem Counted.drain {size : Nat} (h : Counted notes b (size :: rest)) (sent : Bool) :
    Counted (notes ++ [.finished size sent]) (b.drain (UInt64.ofNat size)) rest where
  account := h.account_append (List.append_nil _)
  count := by
    have count := h.count
    rw [List.sum_cons] at count
    rw [Backlog.buffered_drain (by omega)]
    omega

theorem Counted.same (h : Counted notes b rest) (accepts : accepted more = [])
    (finishes : Station.finished more = []) : Counted (notes ++ more) b rest where
  account := h.account_append (by rw [accepts, finishes]; exact List.append_nil _)
  count := h.count

theorem Counted.conclude {size : Nat} (h : Counted notes s.backlog (size :: s.outbox.map List.length))
    (now : Nat) (chunk farewell : Uptake) :
    Counted (notes ++ (s.conclude now size chunk farewell).1)
      (s.conclude now size chunk farewell).2.backlog (s.conclude now size chunk farewell).2.sizes := by
  cases chunk with
  | sent => exact h.drain true
  | pending => exact h.same rfl rfl
  | refused =>
    rw [show (s.conclude now size .refused farewell).1 = [.finished size false] ++ [.stopped,
      .handed (Packet.farewell (s.closed.getD .normal))] from rfl, ← List.append_assoc]
    exact (h.drain false).same rfl rfl

theorem Counted.turned {now : Nat} {r : List Note × Station} (h : Counted notes s.backlog s.sizes)
    (turned : Turned now s r) : Counted (notes ++ r.1) r.2.backlog r.2.sizes := by
  cases turned with
  | rests | parts | stops => exact h.same rfl rfl
  | concludes _ _ sending =>
    apply Counted.conclude
    simpa [sizes, sending] using h
  | @begins first rest chunk farewell _ _ sending outbox =>
    have held : Counted (notes ++ [.handed (.binary first)]) s.backlog
        (first.length :: rest.map List.length) := by
      simpa [sizes, sending, outbox] using h.same rfl rfl
    have concluded := Counted.conclude (s := { s with outbox := rest }) held now chunk farewell
    rw [List.append_assoc] at concluded
    exact concluded

theorem sizes_take (chunk : Bytes) (s : Station) : (s.take chunk).sizes = s.sizes ++ [chunk.length] := by
  simp [sizes, Station.take]

theorem size_of_conclude {now size n : Nat} {chunk farewell : Uptake} {sent : Bool}
    (h : .finished size sent ∈ (s.conclude now n chunk farewell).1) : size = n := by
  cases chunk <;> simp_all [conclude, stop]

theorem sizes_conclude (now size : Nat) (chunk farewell : Uptake) (s : Station) :
    (s.conclude now size chunk farewell).2.sizes.sum ≤ size + (s.outbox.map List.length).sum := by
  cases chunk <;> simp [conclude, stop, sizes, Station.drain, Station.close]

namespace Turned

variable {now : Nat} {r : List Note × Station}

theorem size_le (turned : Turned now s r) {size : Nat} {sent : Bool} (h : .finished size sent ∈ r.1) :
    size ≤ s.sizes.sum := by
  cases turned with
  | rests | parts => cases h
  | stops => simp [stop] at h
  | concludes _ _ sending =>
    rw [size_of_conclude h, sizes, sending]
    simp
  | begins _ _ sending outbox =>
    have finished := (List.mem_cons.1 h).resolve_left (by simp)
    rw [size_of_conclude finished, sizes, sending, outbox]
    simp

theorem sizes_le (turned : Turned now s r) : r.2.sizes.sum ≤ s.sizes.sum := by
  cases turned with
  | rests | parts | stops => exact le_rfl
  | concludes _ _ sending => simpa [sizes, sending] using sizes_conclude ..
  | @begins first rest chunk farewell _ _ sending outbox =>
    simpa [sizes, sending, outbox] using sizes_conclude now first.length chunk farewell
      { s with outbox := rest }

theorem marks (turned : Turned now s r) : r.2.backlog.marks = s.backlog.marks := by
  cases turned with
  | rests | parts | stops => rfl
  | @concludes _ chunk | @begins _ _ chunk => cases chunk <;> rfl

theorem unclosed (turned : Turned now s r) (h : r.2.closed = none) : s.closed = none := by
  cases turned with
  | rests | parts => exact h
  | stops => simp [stop, Station.close] at h
  | concludes _ unclosed | begins _ unclosed => exact unclosed

end Turned

namespace Manned

variable {m : Manned}

theorem counted_act (h : Counted notes m.station.backlog m.station.sizes) (d : Deed)
    (fits : Fits (notes ++ (m.act d).1)) :
    Counted (notes ++ (m.act d).1) (m.act d).2.station.backlog (m.act d).2.station.sizes := by
  have acted := m.acted d
  generalize m.act d = r at acted fits ⊢
  cases acted with
  | refused | rests | returns | closes | dropsWriter | dropsReader | hears => exact h.same rfl rfl
  | done =>
    rw [List.append_cons] at fits ⊢
    have taken := h.take fits.of_append
    rw [← sizes_take] at taken
    exact taken.same rfl rfl
  | waits =>
    have taken := h.take fits
    rwa [← sizes_take] at taken
  | turns turned => exact h.turned turned

theorem counted (marks : Watermarks) {deeds : List Deed} (fits : Fits (after marks deeds).1) :
    Counted (after marks deeds).1 (after marks deeds).2.station.backlog
      (after marks deeds).2.station.sizes := by
  induction deeds using List.reverseRecOn with
  | nil => exact ⟨rfl, rfl⟩
  | append_singleton deeds d ih =>
    rw [after_concat] at fits ⊢
    exact counted_act (ih fits.of_append) d fits

theorem size_le_of_act (h : Counted notes m.station.backlog m.station.sizes) {d : Deed} {size : Nat}
    {sent : Bool} (finished : .finished size sent ∈ (m.act d).1) :
    size ≤ m.station.backlog.buffered.toNat := by
  have acted := m.acted d
  generalize m.act d = r at acted finished
  rw [h.count]
  cases acted with
  | turns turned => exact turned.size_le finished
  | refused | done | waits | rests | returns | closes | dropsWriter | dropsReader | hears =>
    simp at finished

/-! ### One write at a time -/

/-- Each write returns before the next one begins. -/
def Patient (marks : Watermarks) (deeds : List Deed) : Prop :=
  ∀ i, (h : i < deeds.length) → deeds[i].isWrite = true → (after marks (deeds.take i)).2.waiting = none

theorem Patient.of_append {marks : Watermarks} {deeds more : List Deed}
    (h : Patient marks (deeds ++ more)) : Patient marks deeds := by
  intro i hi write
  have whole := h i (by rw [List.length_append]; omega) (by rwa [List.getElem_append_left hi])
  rwa [List.take_append_of_le_length hi.le] at whole

theorem Patient.last {marks : Watermarks} {deeds : List Deed} {d : Deed} (h : Patient marks (deeds ++ [d]))
    (write : d.isWrite = true) : (after marks deeds).2.waiting = none := by
  have whole := h deeds.length (by simp) (by simpa using write)
  rwa [List.take_left] at whole

/-- The length of the last accepted chunk. -/
def lastLength (notes : List Note) : Nat := ((accepted notes).getLast?.map List.length).getD 0

/-- The bound on the count if there is one writer that waits for each write. -/
structure Bounded (marks : Watermarks) (notes : List Note) (m : Manned) : Prop where
  valid : m.station.backlog.marks = marks
  bound : m.station.backlog.buffered.toNat ≤ marks.high.toNat - 1 + lastLength notes
  room : m.station.closed = none → m.waiting = none → m.station.backlog.buffered < marks.high

theorem lastLength_append_nil (h : accepted more = []) : lastLength (notes ++ more) = lastLength notes := by
  rw [lastLength, accepted_append, h, List.append_nil]
  rfl

theorem lastLength_accepted {chunk : Bytes} (h : accepted more = [chunk]) :
    lastLength (notes ++ more) = chunk.length := by
  simp [lastLength, accepted_append, h]

variable {marks : Watermarks}

theorem Bounded.same (h : Bounded marks notes m) {m' : Manned} (quiet : accepted more = [])
    (marks_eq : m'.station.backlog.marks = m.station.backlog.marks)
    (count : m'.station.backlog.buffered.toNat ≤ m.station.backlog.buffered.toNat)
    (rests : m'.station.closed = none → m'.waiting = none → m.station.closed = none ∧ m.waiting = none) :
    Bounded marks (notes ++ more) m' where
  valid := marks_eq.trans h.valid
  bound := by
    rw [lastLength_append_nil quiet]
    exact count.trans h.bound
  room unclosed idle := by
    obtain ⟨unclosed, idle⟩ := rests unclosed idle
    exact UInt64.lt_iff_toNat_lt.2 (count.trans_lt (UInt64.lt_iff_toNat_lt.1 (h.room unclosed idle)))

theorem bounded_act (valid : marks.check = .ok ()) (h : Bounded marks notes m)
    (counted : Counted notes m.station.backlog m.station.sizes) {d : Deed}
    (patient : d.isWrite = true → m.waiting = none)
    (after : Counted (notes ++ (m.act d).1) (m.act d).2.station.backlog (m.act d).2.station.sizes) :
    Bounded marks (notes ++ (m.act d).1) (m.act d).2 := by
  have before := counted.count
  have acted := m.acted d
  generalize m.act d = r at acted after ⊢
  have count := after.count
  cases acted with
  | refused => exact h.same rfl rfl le_rfl fun unclosed _ => ⟨unclosed, patient rfl⟩
  -- one chunk comes on top of a backlog that was below the high watermark
  | done unclosed room =>
    have below := UInt64.lt_iff_toNat_lt.1 (h.room unclosed (patient rfl))
    rw [sizes_take, List.sum_append_nat, ← before, List.sum_singleton] at count
    refine ⟨h.valid, ?_, fun _ _ => ?_⟩
    · rw [lastLength_accepted rfl]
      omega
    · have room := UInt64.not_le.1 (of_decide_eq_false room)
      rwa [show (m.station.take _).backlog.marks = marks from h.valid] at room
  | waits unclosed =>
    have below := UInt64.lt_iff_toNat_lt.1 (h.room unclosed (patient rfl))
    rw [sizes_take, List.sum_append_nat, ← before, List.sum_singleton] at count
    refine ⟨h.valid, ?_, fun _ rests => by cases rests⟩
    rw [lastLength_accepted rfl]
    omega
  | rests still => exact h.same rfl rfl le_rfl fun unclosed idle => ⟨unclosed, still idle⟩
  | returns cause =>
    refine ⟨h.valid, ?_, fun unclosed _ => ?_⟩
    · rw [lastLength_append_nil rfl]
      exact h.bound
    · have drained := of_decide_eq_true (cause.resolve_left (by simpa using unclosed))
      rw [h.valid] at drained
      exact UInt64.lt_of_le_of_lt drained (Watermarks.low_lt_high valid)
  | closes => exact h.same rfl rfl le_rfl fun unclosed => by simp [Station.close] at unclosed
  | dropsWriter | dropsReader | hears =>
    exact h.same rfl rfl le_rfl fun unclosed idle => ⟨unclosed, idle⟩
  | turns turned =>
    refine h.same ?_ turned.marks ?_ fun unclosed idle => ⟨turned.unclosed unclosed, idle⟩
    · exact turned.filterMap_eq_nil rfl (fun _ => rfl) fun _ _ => rfl
    · rw [before, count]
      exact turned.sizes_le

theorem bounded (valid : marks.check = .ok ()) {deeds : List Deed} (fits : Fits (after marks deeds).1)
    (patient : Patient marks deeds) : Bounded marks (after marks deeds).1 (after marks deeds).2 := by
  induction deeds using List.reverseRecOn with
  | nil =>
    have room : (0 : UInt64) < marks.high :=
      UInt64.lt_of_le_of_lt UInt64.zero_le (Watermarks.low_lt_high valid)
    exact ⟨rfl, Nat.zero_le _, fun _ _ => room⟩
  | append_singleton deeds d ih =>
    have counted_after := counted marks fits
    rw [after_concat] at fits counted_after ⊢
    exact bounded_act valid (ih fits.of_append patient.of_append) (counted marks fits.of_append)
      patient.last counted_after

/-! ### The count -/

/-- The sink finishes the accepted chunks in order, and the count is the total length of those it has
not finished, if that fits into a word. So a drain never exceeds the count, and a chunk that is accepted
while the path is open has a sender. If each write returns before the next one begins, the count stays
below the high watermark except for the length of the last chunk. An end of a socket behaves in this
way. -/
theorem counts_what_is_held (marks : Watermarks) :
    (∀ deeds, Fits (after marks deeds).1 →
      let notes := (after marks deeds).1
      let s := (after marks deeds).2.station
      (finished notes = ((accepted notes).take (finished notes).length).map List.length ∧
        s.backlog.buffered.toNat = total (unfinished notes)) ∧
      (s.closed = none → s.sender = .running) ∧
      (∀ before d size sent, before ++ [d] <+: deeds →
        .finished size sent ∈ ((after marks before).2.act d).1 →
        size ≤ (after marks before).2.station.backlog.buffered.toNat) ∧
      (marks.check = .ok () → Patient marks deeds →
        s.backlog.buffered.toNat ≤ marks.high.toNat - 1 + lastLength notes)) ∧
    ∀ (e : End) (x : Socket) (ops : List Socket.Op), x.station? e = some (.new marks) →
      ∃ deeds, (ops.foldl (Socket.Watched.act e) (.start x)).Mans e (after marks deeds).1
        (after marks deeds).2 := by
  refine ⟨fun deeds fits => ?_, fun e x ops h => Socket.Watched.is_manned h ops⟩
  have held := counted marks fits
  refine ⟨⟨held.finished, ?_⟩, running_of_unclosed marks deeds, ?_, fun valid patient =>
    (bounded valid fits patient).bound⟩
  · rw [total, map_unfinished held.account, held.count]
  · intro before d size sent hb finished
    exact size_le_of_act (counted marks (fits.of_prefix (notes_after marks
      ((List.prefix_append ..).trans hb)))) finished

theorem counts_what_is_held_stalled :
    let marks : Watermarks := ⟨8, 4, 2⟩
    let deeds : List Deed := [.write 0 [1, 2, 3, 4, 5], .write 0 [1, 2, 3, 4, 5, 6], .turn 0 .sent .sent,
      .look 2, .turn 3 .pending .sent, .turn 4 .sent .sent, .look 4, .write 4 [1, 2, 3]]
    let count := (after marks deeds).2.station.backlog.buffered.toNat
    Fits (after marks deeds).1 ∧ marks.check = .ok () ∧ Patient marks deeds ∧
      total (unfinished (after marks deeds).1) = 3 ∧ count = 3 ∧
      count ≤ marks.high.toNat - 1 + lastLength (after marks deeds).1 := by
  intro marks deeds count
  have fits : Fits (after marks deeds).1 := fits_of_total (by decide)
  have patient : Patient marks deeds := by unfold Patient; decide
  have held := (counts_what_is_held marks).1 deeds fits
  have rest : total (unfinished (after marks deeds).1) = 3 := by decide
  exact ⟨fits, rfl, patient, rest, held.1.2.trans rest, held.2.2.2 rfl patient⟩

end Manned

end Station

end PathRace
