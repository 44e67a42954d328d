import Mathlib
import PathRace.Proofs.Race.Table
import PathRace.Proofs.World.Links
import PathRace.Script

/-! The ownership table of a race, and the links of paths that have left it. A frame for such a path is
accepted and dropped (`post_of_gone`); `racing_table_sound` says what the table guarantees after any
moves. -/

namespace PathRace

namespace World

variable {E : Type} {w w' : World E} {outlets : List Outlet}

/-- Only the writers of these outlets have been dropped. -/
def LetsGo (outlets : List Outlet) (w w' : World E) : Prop :=
  ∀ k, ∃ sides : List End, (∀ side ∈ sides, ⟨k, side⟩ ∈ outlets) ∧
    w'.links[k]? = w.links[k]?.map fun l => sides.foldl (fun l side => l.dropWriter side) l

theorem LetsGo.refl (outlets : List Outlet) (w : World E) : LetsGo outlets w w :=
  fun k => ⟨[], by simp, by simp⟩

theorem LetsGo.dropWriter (h : LetsGo outlets w w') {o : Outlet} (ho : o ∈ outlets) :
    LetsGo outlets w (w'.dropWriter o) := by
  intro k
  obtain ⟨sides, ours, same⟩ := h k
  by_cases here : o.link = k
  · subst here
    refine ⟨sides ++ [o.side], ?_, ?_⟩
    · intro side hs
      rcases List.mem_append.1 hs with hs | hs
      · exact ours side hs
      · obtain rfl := List.mem_singleton.1 hs
        exact ho
    · simp only [World.dropWriter, onLink, List.getElem?_modify_eq, same, Option.map_eq_map,
        Option.map_map, List.foldl_append, List.foldl_cons, List.foldl_nil]
      rfl
  · refine ⟨sides, ours, ?_⟩
    rw [← same]
    simp only [World.dropWriter, onLink, List.getElem?_modify_ne _ _ here]

theorem letsGo_carryOut (attached : List (PathId × Outlet)) (pid : PathId) (race : Race) (w : World E) :
    LetsGo ((attached.filter (·.1 == pid)).map Prod.snd) w
      (w.carryOut attached race { race with writers := race.writers.erase pid }) := by
  have none_closed : race.closes.drop race.closes.length = [] := by simp
  rw [carryOut_eq, none_closed]
  unfold closeAll dropAll
  refine List.foldlRecOn (motive := LetsGo _ w) _ _ (.refl _ w) fun w' hw' e he => ?_
  obtain ⟨q, o⟩ := e
  have reader : (race.holdsReader q && !race.holdsReader q) = false := Bool.and_not_self _
  change LetsGo _ w (if race.holdsWriter q && !(race.writers.erase pid).contains q then
    (if race.holdsReader q && !race.holdsReader q then w'.dropReader o else w').dropWriter o else
    if race.holdsReader q && !race.holdsReader q then w'.dropReader o else w')
  simp only [reader, Bool.false_eq_true, if_false]
  split_ifs with released
  · refine hw'.dropWriter (List.mem_map.2 ⟨(q, o), List.mem_filter.2 ⟨he, ?_⟩, rfl⟩)
    by_contra other
    have other : q ≠ pid := by simpa using other
    simp [Race.holdsWriter, List.mem_erase_of_ne other] at released
  · exact hw'

variable [Engine E] {i : Nat} {site : Site E} {pid : PathId} {frame : Bytes}

/-- A frame for a path that has left the table is accepted and dropped. -/
theorem post_of_gone (here : w.sites[i]? = some site) (asked : w.operation = some (.post i pid frame))
    (quiet : site.session.race.signal.cause = none) (gone : pid ∉ site.session.race.pids) :
    w.moveOperation.answer = some (.done (.ok ())) ∧ w.moveOperation.operation = none ∧
    w.moveOperation.race? i =
      some { site.session.race with writers := site.session.race.writers.erase pid } ∧
    LetsGo ((site.attached.filter (·.1 == pid)).map Prod.snd) w w.moveOperation := by
  have dropped := Race.openWrite_of_gone quiet gone
  have moved : w.moveOperation =
      (w.setRace i { site.session.race with writers := site.session.race.writers.erase pid }).finish
        (.done (.ok ())) := by
    simp only [moveOperation, asked, Operation.site?, Option.bind_some, here, moveSite, dropped]
  have session := session?_of_site here
  rw [moved]
  refine ⟨rfl, rfl, ?_, ?_⟩
  · rw [setRace_of_session? session]
    refine race?_of_session? (x := { site.session with race := _ }) ?_
    exact (session?_setSession session _ i).trans (if_pos rfl)
  · simp only [setRace, setSession, here]
    exact letsGo_carryOut site.attached pid site.session.race _

/-- After any moves: a race that is on has a path left, and each of its paths still has its writer. Its
paths are ascending, and a path that has left never returns; nothing of it is handed out, and frames for
it are dropped. Before the nomination the effect of a loss does not depend on its reason.
`noPathsRemaining` is raised by the loss of the last path and by nothing else in the race. -/
theorem racing_table_sound (before : List Cause) (pids : List PathId)
    (born : (Race.start before pids).1 = .ok ()) (ms : List Race.Move) :
    let r := Race.run ms (Race.start before pids).2
    (∀ table, r.ownership = .racing table → table ≠ [] ∧
      (r.isRacing = true → ∀ pid ∈ table, r.holdsWriter pid = true)) ∧
    r.pids.Pairwise (· < ·) ∧ (∀ more, (Race.run more r).pids.Sublist r.pids) ∧
    (∀ pid, pid ∉ r.pids → ∀ more : List Race.Move, let later := Race.run more r
      (∀ data, later.receive.1 ≠ some (.ok (pid, data))) ∧
      ∀ (w : World E) (i : Nat) (site : Site E) (frame : Bytes),
        w.sites[i]? = some site → site.session.race = later →
        w.operation = some (.post i pid frame) → later.signal.cause = none →
        w.moveOperation.answer = some (.done (.ok ())) ∧ w.moveOperation.operation = none ∧
        w.moveOperation.race? i = some { later with writers := later.writers.erase pid } ∧
        LetsGo ((site.attached.filter (·.1 == pid)).map Prod.snd) w w.moveOperation) ∧
    (r.isRacing = true → r.isHalting = false → ∀ pid ∈ r.reading, ∀ item : Inbound,
      item.isLast = true →
      let unread := r.after (.pump pid (some item))
      let unwritten := r.after (.failWrite pid)
      unwritten.pids = unread.pids ∧ unwritten.closes = unread.closes ∧
        unwritten.signal = unread.signal) ∧
    (∀ m, Race.Exhausts r m → (r.after m).pids = [] ∧
      (r.after m).signal.cause = some (r.signal.cause.getD .noPathsRemaining)) ∧
    (∀ m, m ≠ .raise .noPathsRemaining → r.signal.cause = none →
      (r.after m).signal.cause = some .noPathsRemaining → Race.Exhausts r m) := by
  intro r
  have tabled : Race.Tabled r := Race.tabled_run born ms
  refine ⟨fun table on => ⟨tabled.left table on, fun racing pid hp => ?_⟩, tabled.ascending,
    Race.sublist_pids_run tabled, fun pid gone more => ⟨?_, ?_⟩, ?_, ?_, ?_⟩
  · have owned : pid ∈ r.pids := by simpa only [Race.pids, on] using hp
    exact List.contains_iff_mem.2 (tabled.written racing pid owned)
  · exact Race.not_received tabled gone more
  · intro w i site frame here same asked quiet
    rw [← same] at quiet ⊢
    refine post_of_gone here asked quiet ?_
    rw [same]
    exact fun there => gone ((Race.sublist_pids_run tabled more).subset there)
  · intro racing running pid reading item last
    dsimp only
    rw [Race.after_pump_of_reading running reading, Race.after, if_pos racing]
    exact tabled.failWrite_alike racing last
  · intro m last
    rw [last.after.2, Signal.cause_raise]
    exact ⟨last.after.1, rfl⟩
  · exact fun m ours quiet told => Race.exhausts_of_cause tabled ours quiet told

/-- The first of two paths ends while its chunk is in the slot. -/
def plainLoss : List Race.Move :=
  [.pump 5 (some (.chunk [1])), .pump 5 none, .pump 5 (some .ended)]

def plainOneLeft : Race := Race.run plainLoss (Race.start [] [5, 3]).2

/-- A caller writes to the path that has ended. -/
def plainPostToEnded : World Script where
  links := [5, 3].map fun pid => ⟨pid, .socket (Socket.withPeer 65536 Watermarks.standard)⟩
  sites := [{
    config := Config.standard .initiator (Octets.zero 32)
    make := fun _ => .error .notNominator
    setup := none
    paths := []
    attached := [(5, ⟨0, .a⟩), (3, ⟨1, .a⟩)]
    session := ⟨plainOneLeft, .idle⟩
    held := .whole }]
  background := []
  operation := some (.post 0 5 [1])
  answer := none
  now := 0
  entropy := .cycle []

/-- The other path is still in the race, and its loss raises `noPathsRemaining`. -/
theorem racing_table_sound_loss :
    (Race.start [] [5, 3]).1 = .ok () ∧
    (plainOneLeft.ownership = .racing [3] ∧ plainOneLeft.isRacing = true ∧
      plainOneLeft.holdsWriter 3 = true) ∧
    (5 ∉ plainOneLeft.pids ∧ plainOneLeft.slot = some (5, [1]) ∧
      plainOneLeft.receive.1 ≠ some (.ok (5, [1]))) ∧
    (plainPostToEnded.moveOperation.answer = some (.done (.ok ())) ∧
      LetsGo [⟨0, .a⟩] plainPostToEnded plainPostToEnded.moveOperation) ∧
    (plainOneLeft.isHalting = false ∧ 3 ∈ plainOneLeft.reading ∧
      (plainOneLeft.after (.failWrite 3)).closes = (plainOneLeft.after (.pump 3 (some .ended))).closes) ∧
    (Race.Exhausts plainOneLeft (.failWrite 3) ∧
      (plainOneLeft.after (.failWrite 3)).signal.cause = some .noPathsRemaining) ∧
    (plainOneLeft.signal.cause = none ∧
      (plainOneLeft.after (.pump 3 (some .ended))).signal.cause = some .noPathsRemaining ∧
      Race.Exhausts plainOneLeft (.pump 3 (some .ended))) := by
  have born : (Race.start [] [5, 3]).1 = .ok () := by cbv
  have table : plainOneLeft.ownership = .racing [3] := by cbv
  have racing : plainOneLeft.isRacing = true := by cbv
  have running : plainOneLeft.isHalting = false := by cbv
  have quiet : plainOneLeft.signal.cause = none := by cbv
  have slot : plainOneLeft.slot = some (5, [1]) := by cbv
  have gone : 5 ∉ plainOneLeft.pids := by simp [Race.pids, table]
  have reading : 3 ∈ plainOneLeft.reading := List.contains_iff_mem.1 (by cbv)
  have last : Race.Exhausts plainOneLeft (.failWrite 3) := .unwritable racing table
  have told : (plainOneLeft.after (.pump 3 (some .ended))).signal.cause = some .noPathsRemaining := by cbv
  obtain ⟨left, -, -, lapsed, alike, exhausts, exhausted⟩ :=
    racing_table_sound (E := Script) [] [5, 3] born plainLoss
  obtain ⟨unheard, unsent⟩ := lapsed 5 gone []
  have posted := unsent plainPostToEnded 0 _ [1] rfl rfl rfl quiet
  have closes := (alike racing running 3 reading .ended rfl).2.1
  have final : (plainOneLeft.after (.failWrite 3)).signal.cause =
      some (plainOneLeft.signal.cause.getD .noPathsRemaining) := (exhausts _ last).2
  rw [quiet] at final
  exact ⟨born, ⟨table, racing, (left [3] table).2 racing 3 (by simp)⟩, ⟨gone, slot, unheard [1]⟩,
    ⟨posted.1, posted.2.2.2⟩, ⟨running, reading, closes⟩, ⟨last, final⟩, quiet, told,
    exhausted _ (by decide) quiet told⟩

end World

end PathRace
