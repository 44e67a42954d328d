import PathRace.Proofs.Race.Load
import PathRace.Proofs.World.Table

/-! How many chunks a race takes from its links. A pump that holds a chunk does not read its link
(`movePump_of_line`), so before the nomination at most one chunk for each path and one more have been
taken and not handed out or discarded (`inbound_bounded`). -/

namespace PathRace

namespace World

variable {E : Type} {w : World E} {i : Nat} {pid : PathId} {r : Race} {o : Outlet}

theorem movePump_of_line (s : Race.Seated r) (race : w.race? i = some r)
    (outlet : w.outletOf i pid = some o) (line : pid ∈ r.line.map Prod.fst) :
    w.movePump i pid = w.setRace i (r.pump pid none) := by
  have still : (!r.isHalting && r.reading.contains pid) = false := s.isReading_of_line line
  simp only [movePump, race, outlet, still, Bool.false_eq_true, if_false]

/-- After any moves, the chunks taken from the links are those handed out, those discarded and those
still in the race. Before the nomination at most one chunk for each path, held by its pump, and one in
the slot are in the race. A pump that holds a chunk takes no other from its link. While the race is on,
only chunks of paths that have left it are discarded. -/
theorem inbound_bounded (before : List Cause) (pids : List PathId) (ms : List Race.Move) :
    let t := (Race.Tape.opened before pids).run ms
    let r := t.race
    let lost := Race.discarded ms (Race.start before pids).2
    t.delivered.Perm (t.yielded ++ (lost ++ r.load)) ∧
    (r.winner? = none → r.load = r.slot.toList ++ r.line ∧
      t.delivered.length ≤ t.yielded.length + lost.length + (pids.length + 1)) ∧
    (∀ pid, (r.queued pid).length ≤ 1 ∧ (chunksOf pid r.slot.toList).length ≤ 1) ∧
    (∀ pid ∈ r.line.map Prod.fst, pid ∈ pids ∧
      (∀ item, r.taken (.pump pid item) = none ∧
        r.after (.pump pid item) = r.after (.pump pid none)) ∧
      ∀ (w : World E) (i : Nat) (o : Outlet), w.race? i = some r → w.outletOf i pid = some o →
        w.movePump i pid = w.setRace i (r.pump pid none)) ∧
    (∀ m, r.isRacing = true → r.isHalting = false → (r.after m).isRacing = true →
      ∀ e ∈ r.discards m, e.1 ∉ r.pids) := by
  intro t r lost
  have h : Race.Accounted pids lost t := Race.accounted_run before pids ms
  refine ⟨h.total, fun unwon => ⟨Race.load_of_unwon unwon, ?_⟩, fun pid => ⟨h.seated.hand pid, ?_⟩,
    fun pid line => ⟨?_, fun item => ?_, fun w i o race outlet => ?_⟩, ?_⟩
  · have total := h.total.length_eq
    have load := h.load unwon
    rw [List.length_append, List.length_append] at total
    omega
  · refine (List.length_map _).trans_le ((List.length_filter_le _ _).trans ?_)
    cases r.slot <;> simp
  · exact h.places.subset (List.mem_append_right _ line)
  · have still : r.isReading pid = false := h.seated.isReading_of_line line
    exact ⟨Race.taken_of_not_reading still item, Race.after_pump_of_not_reading still item⟩
  · exact movePump_of_line h.seated race outlet line
  · exact fun m => Race.not_owned_of_discards

/-- Both paths deliver whenever they are asked, nothing is received, and one path leaves. -/
def plainFlood : List Race.Move :=
  [.pump 5 (some (.chunk [1])), .pump 5 none, .pump 5 (some (.chunk [2])),
    .pump 3 (some (.chunk [3])), .failWrite 5]

def plainFull : Race := Race.run plainFlood (Race.start [] [5, 3]).2

/-- The race of `plainFull`, with more chunks waiting on both links. -/
def plainFullAndReadable : World Script := { plainPostToEnded with
  links := [5, 3].map fun pid => ⟨pid, .probe (Probe.new.feed [4])⟩
  sites := plainPostToEnded.sites.map fun site => { site with session := ⟨plainFull, .idle⟩ } }

/-- The bound is reached, and then nothing more is taken. -/
theorem inbound_bounded_flood :
    (plainFull.winner? = none ∧ plainFull.slot = some (5, [1]) ∧
      plainFull.line = [(5, [2]), (3, [3])] ∧ plainFull.load.length = [5, 3].length + 1 ∧
      ((Race.Tape.opened [] [5, 3]).run plainFlood).delivered.length ≤ [5, 3].length + 1) ∧
    (3 ∈ plainFull.line.map Prod.fst ∧ plainFull.taken (.pump 3 (some (.chunk [4]))) = none) ∧
    (plainFullAndReadable.canRead ⟨1, .a⟩ = true ∧
      plainFullAndReadable.movePump 0 3 = plainFullAndReadable.setRace 0 (plainFull.pump 3 none)) ∧
    (plainFull.isRacing = true ∧ plainFull.isHalting = false ∧
      (plainFull.after .receive).isRacing = true ∧ (5, [1]) ∈ plainFull.discards .receive ∧
      5 ∉ plainFull.pids) := by
  obtain ⟨-, bounded, -, waiting, sparing⟩ := inbound_bounded (E := Script) [] [5, 3] plainFlood
  have slot : plainFull.slot = some (5, [1]) := by cbv
  have line : plainFull.line = [(5, [2]), (3, [3])] := by cbv
  have unwon : plainFull.winner? = none := by cbv
  have here : 3 ∈ plainFull.line.map Prod.fst := by simp [line]
  have racing : plainFull.isRacing = true := by cbv
  have running : plainFull.isHalting = false := by cbv
  have on : (plainFull.after .receive).isRacing = true := by cbv
  have lost : (5, [1]) ∈ plainFull.discards .receive := List.contains_iff_mem.1 (by cbv)
  have untouched : ((Race.Tape.opened [] [5, 3]).run plainFlood).yielded = [] ∧
      Race.discarded plainFlood (Race.start [] [5, 3]).2 = [] := ⟨by cbv, by cbv⟩
  have same : plainFull.load = plainFull.slot.toList ++ plainFull.line := (bounded unwon).1
  have most := (bounded unwon).2
  rw [untouched.1, untouched.2, List.length_nil, Nat.zero_add] at most
  obtain ⟨-, taken, moved⟩ := waiting 3 here
  refine ⟨⟨unwon, slot, line, ?_, most⟩, ⟨here, (taken _).1⟩,
    ⟨by cbv, moved plainFullAndReadable 0 ⟨1, .a⟩ rfl rfl⟩, racing, running, on, lost,
    sparing .receive racing running on _ lost⟩
  rw [same, slot, line]
  rfl

end World

end PathRace
