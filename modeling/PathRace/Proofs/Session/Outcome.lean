import Mathlib
import PathRace.Proofs.Session.Attempt
import PathRace.Script

/-! How an attempt ends. A failed session has raised the signal; a connected one holds the only winner
that its election announced, which is the only path it asked to nominate (`Standing`). Every move keeps
this, for all paths, engines and signals (`stands_after`). -/

namespace PathRace

namespace Session

variable {E : Type} [Engine E]

/-- What the election of a racing session has announced: nothing while the session listens, and
otherwise the winner that the rest of its actions names. -/
def Awaits (election : Election E) (announced : List (PathId × PathHash)) : Doing → Prop
  | .listening => announced = []
  | .acting todo winner | .writing _ _ todo winner =>
    announced = winner.toList ++ winners todo ∧ election.Announced announced

/-- What a session has announced and asked its race for, by its state. -/
inductive Standing (pids : List PathId) :
    Session E → List (PathId × PathHash) → List PathId → Prop
  | idle (before : List Cause) :
      Standing pids ⟨before.foldl (fun r c => r.raise c) Race.idle, .idle⟩ [] []
  | racing {race : Race} {election : Election E} {doing : Doing}
      {announced : List (PathId × PathHash)} (kept : race.Kept pids)
      (awaits : Awaits election announced doing) :
      Standing pids ⟨race, .racing election doing⟩ announced []
  | connected {race : Race} {engine : E} {pid : PathId} {hash : PathHash} (kept : race.Kept pids)
      (nominated : Engine.nominatedPath engine = some pid) :
      Standing pids ⟨race, .connected engine pid hash⟩ [(pid, hash)] [pid]
  | failed {race : Race} {failure : Failure} {engine : Option E}
      {announced : List (PathId × PathHash)} {nominations : List PathId} (kept : race.Kept pids)
      (raised : race.signal.cause.isSome = true) :
      Standing pids ⟨race, .failed failure engine⟩ announced nominations

variable {pids : List PathId}

theorem standing_fail {x : Session E} (k : x.race.Kept pids) (failure : Failure) (engine : Option E)
    (announced : List (PathId × PathHash)) (nominations : List PathId) :
    Standing pids (x.fail failure engine) announced nominations := by
  have raised := Race.sameTable_raise failure.cause x.race
  have gone := Race.sameTable_abandon (x.race.raise failure.cause)
  refine .failed ((raised.trans gone).kept k) ?_
  rw [gone.signal.cause (Signal.cause_raise x.race.signal failure.cause)]
  rfl

theorem standing_perform {x : Session E} (k : x.race.Kept pids)
    {result : Except Failure (List Action)} {election : Election E}
    (h : ∀ todo, result = .ok todo → election.Announced (winners todo)) :
    Standing pids (x.perform result election) (x.perform result election).announcement [] := by
  cases result with
  | error failure => exact standing_fail k ..
  | ok todo => exact .racing k ⟨rfl, h todo rfl⟩

theorem standing_connect {make : Setup → Except EngineFault E} {config : Config} {now : Nat}
    {s : Entropy} (he : pids ≠ []) (hn : pids.Nodup) (before : List Cause) :
    let x : Session E := ⟨before.foldl (fun r c => r.raise c) Race.idle, .idle⟩
    let y := (x.connect make config pids now s).1
    Standing pids y y.announcement [] := by
  intro x y
  obtain ⟨hok, k⟩ := Race.start_of_nodup before he hn
  have entered : x.race.enter pids = (.ok (), (Race.start before pids).2) := Prod.ext hok rfl
  simp only [y, connect, entered]
  cases make (config.setup pids) with
  | error fault => exact standing_fail k ..
  | ok engine =>
    refine standing_perform k fun todo ht => .inl ?_
    exact Election.winners_start (Prod.ext ht rfl)

theorem standing_act {race : Race} (k : race.Kept pids) {election : Election E} {todo : List Action}
    {winner : Option (PathId × PathHash)} {announced : List (PathId × PathHash)}
    (aw : Awaits election announced (.acting todo winner)) :
    let x : Session E := ⟨race, .racing election (.acting todo winner)⟩
    Standing pids (x.act election todo winner) announced x.nomination?.toList := by
  obtain ⟨ha, hw⟩ := aw
  cases todo with
  | nil =>
    cases winner with
    | none => exact .racing k ha
    | some w =>
      obtain ⟨pid, hash⟩ := w
      obtain rfl : announced = [(pid, hash)] := by simpa using ha
      have hp : Engine.nominatedPath election.engine = some pid := by
        rcases hw with hw | ⟨other, _, hw, -, hp⟩
        · simp at hw
        · obtain ⟨rfl, -⟩ : pid = other ∧ _ := by simpa using hw
          exact hp
      have kn := Race.kept_nominate pid k
      simp only [act]
      rcases hr : race.nominate pid with ⟨failure | ⟨⟩, race'⟩
      · rw [hr] at kn; exact standing_fail (x := ⟨race', _⟩) kn ..
      · rw [hr] at kn; exact .connected kn hp
  | cons action rest =>
    cases action with
    | send pid frame =>
      have ko := (Race.sameTable_openWrite pid race).kept k
      simp only [act]
      rcases hr : race.openWrite pid with ⟨failure | - | -, race'⟩
      · rw [hr] at ko; exact standing_fail (x := ⟨race', _⟩) ko ..
      all_goals rw [hr] at ko; exact .racing ko ⟨ha, hw⟩
    | nominated pid hash =>
      -- a winner is announced once, so none has come before this one
      have hn : winner = none := by
        rcases hw with hw | ⟨_, _, hw, -⟩
        · simp [hw] at ha
        · cases winner with
          | none => rfl
          | some w => simp [hw] at ha
      subst hn
      exact .racing k ⟨by simpa using ha, hw⟩

theorem standing_wrote {race : Race} (k : race.Kept pids) {election : Election E} {pid : PathId}
    {write : Writing} {todo : List Action} {winner : Option (PathId × PathHash)}
    {announced : List (PathId × PathHash)} (progress : Progress)
    (aw : Awaits election announced (.writing pid write todo winner)) :
    let x : Session E := ⟨race, .racing election (.writing pid write todo winner)⟩
    Standing pids (x.wrote election pid progress todo winner) announced [] := by
  rcases progress with (failure | -) | write'
  · refine .racing ?_ aw
    exact Race.kept_prune pid true ((Race.sameTable_without_writer pid race).kept k)
  · exact .racing k aw
  · exact .racing k aw

theorem standing_listen {race : Race} (k : race.Kept pids) {election : Election E} (now : Nat)
    (s : Entropy) :
    let x : Session E := ⟨race, .racing election .listening⟩
    let y := (x.listen election now s).1
    Standing pids y y.announcement [] := by
  intro x y
  have kr := (Race.sameTable_receive race).kept k
  simp only [y, x, listen]
  rcases hr : race.receive with ⟨- | failure | ⟨pid, data⟩, race'⟩
  · rw [hr] at kr
    split_ifs
    · exact standing_perform kr fun todo ht => Election.announced_handle (Prod.ext ht rfl)
    · exact .racing kr rfl
  · rw [hr] at kr; exact standing_fail (x := ⟨race', _⟩) kr ..
  · rw [hr] at kr
    exact standing_perform kr fun todo ht => Election.announced_handle (Prod.ext ht rfl)

end Session

namespace Attempt

open Session

variable {E : Type} [Engine E] {make : Setup → Except EngineFault E} {config : Config}
  {pids : List PathId}

def Stands (pids : List PathId) (a : Attempt E) : Prop :=
  Standing pids a.session a.announced a.nominations

theorem stands_onRace {a : Attempt E} (h : a.Stands pids) (m : Race.Move)
    (hm : (∃ c, m = .raise c) ∨ m = .sweep ∨ ∃ pid item, m = .pump pid item) :
    (a.onRace m).Stands pids := by
  obtain ⟨session, announced, nominations⟩ := a
  simp only [Stands] at h
  cases h with
  | idle before =>
    have idle (before : List Cause) : Standing (E := E) pids
        ⟨before.foldl (fun r c => r.raise c) Race.idle, .idle⟩ [] [] := .idle before
    rcases hm with ⟨c, rfl⟩ | rfl | ⟨pid, item, rfl⟩
    · have h := idle (before ++ [c])
      rw [List.foldl_append] at h
      exact h
    · have still := Race.foldl_raise before Race.idle
      have h : (before.foldl (fun r c => r.raise c) Race.idle).canSweep = false := by
        rw [still]; rfl
      simpa [onRace, Stands, Race.after, h] using idle before
    · have still := Race.foldl_raise before Race.idle
      have h : (before.foldl (fun r c => r.raise c) Race.idle).canPump pid item.isSome = false := by
        rw [still]; simp [Race.canPump, Race.holdsReader, Race.idle, Race.canGrant]
      simpa [onRace, Stands, Race.after, h] using idle before
  | racing kept awaits => exact .racing (Race.kept_after m kept) awaits
  | connected kept nominated => exact .connected (Race.kept_after m kept) nominated
  | failed kept raised =>
    obtain ⟨c, hc⟩ := Option.isSome_iff_exists.1 raised
    refine .failed (Race.kept_after m kept) ?_
    rw [(Race.later_after m _).cause hc]
    rfl

theorem stands_proceed {a : Attempt E} (h : a.Stands pids) (progress : Progress) (now : Nat)
    (s : Entropy) : (a.after make config pids (.proceed progress now s)).Stands pids := by
  obtain ⟨session, announced, nominations⟩ := a
  simp only [Stands] at h
  simp only [Stands, after, proceed]
  cases h with
  | idle before => exact .idle before
  | connected kept nominated => exact .connected kept nominated
  | failed kept raised => exact .failed kept raised
  | @racing race election doing _ kept awaits =>
    cases doing with
    | acting todo winner =>
      simpa [isListening] using standing_act kept awaits
    | writing pid write todo winner =>
      simp only [isListening, nomination?, Bool.false_eq_true, if_false, Option.toList_none,
        List.append_nil]
      split_ifs
      · unfold interrupt
        split
        · exact .racing kept awaits
        · exact standing_fail kept ..
      · exact standing_wrote kept progress awaits
    | listening =>
      obtain rfl : announced = [] := awaits
      simpa [isListening, nomination?] using standing_listen kept now s

/-- Every move keeps the standing of an attempt or advances it. -/
theorem stands_after (he : pids ≠ []) (hn : pids.Nodup) {a : Attempt E} (h : a.Stands pids)
    (m : Move) : (a.after make config pids m).Stands pids := by
  cases m with
  | raise cause => exact stands_onRace h _ (.inl ⟨cause, rfl⟩)
  | sweep => exact stands_onRace h _ (.inr (.inl rfl))
  | pump pid item => exact stands_onRace h _ (.inr (.inr ⟨pid, item, rfl⟩))
  | proceed progress now s => exact stands_proceed h progress now s
  | connect now s =>
    obtain ⟨session, announced, nominations⟩ := a
    simp only [Stands] at h
    cases h with
    | idle before => exact standing_connect he hn before
    | racing kept awaits => exact .racing kept awaits
    | connected kept nominated => exact .connected kept nominated
    | failed kept raised => exact .failed kept raised

theorem stands_run (he : pids ≠ []) (hn : pids.Nodup) {a : Attempt E} (h : a.Stands pids)
    (ms : List Move) : (a.run make config pids ms).Stands pids := by
  induction ms generalizing a with
  | nil => exact h
  | cons m ms ih => exact ih (stands_after he hn h m)

theorem stands_new : (new : Attempt E).Stands pids := .idle []

/-! ### The end -/

theorem Stands.pending {a : Attempt E} (h : a.Stands pids) (hr : a.session.result? = none) :
    a.nominations = [] := by
  obtain ⟨session, announced, nominations⟩ := a
  simp only [Stands] at h
  cases h with
  | idle | racing => rfl
  | connected | failed => simp [result?] at hr

theorem Stands.returned {a : Attempt E} (h : a.Stands pids) {pid : PathId} {hash : PathHash}
    (hr : a.session.result? = some (.ok (pid, hash))) :
    a.session.race.Kept pids ∧ a.nominations = [pid] ∧ a.announced = [(pid, hash)] ∧
      ∃ engine, a.session.engine? = some engine ∧ Engine.nominatedPath engine = some pid := by
  obtain ⟨session, announced, nominations⟩ := a
  simp only [Stands] at h
  cases h with
  | idle | racing | failed => simp [result?] at hr
  | connected kept nominated =>
    simp only [result?, Option.some.injEq, Except.ok.injEq, Prod.mk.injEq] at hr
    obtain ⟨rfl, rfl⟩ := hr
    exact ⟨kept, rfl, rfl, _, rfl, nominated⟩

theorem Stands.refused {a : Attempt E} (h : a.Stands pids) {failure : Failure}
    (hr : a.session.result? = some (.error failure)) :
    a.session.race.Kept pids ∧ a.session.race.signal.cause.isSome = true := by
  obtain ⟨session, announced, nominations⟩ := a
  simp only [Stands] at h
  cases h with
  | idle | racing | connected => simp [result?] at hr
  | failed kept raised => exact ⟨kept, raised⟩

theorem nominate_of_nomination? {x : Session E} {pid : PathId} (h : x.nomination? = some pid)
    {progress : Progress} {now : Nat} {s : Entropy} {w : PathId × PathHash}
    (hr : (x.proceed progress now s).result? = some (.ok w)) :
    x.race.nominate pid = (.ok (), (x.proceed progress now s).race) := by
  unfold nomination? at h
  split at h
  · rename_i election p hash hx
    obtain rfl : p = pid := by simpa using h
    simp only [proceed, hx, act] at hr ⊢
    rcases hn : x.race.nominate p with ⟨failure | ⟨⟩, race⟩
    · simp [hn, fail, result?] at hr
    · rfl
  · simp at h

/-- An attempt that returns a winner has just nominated it in its race. -/
theorem nominate_of_returned {a : Attempt E} {m : Move} (before : a.session.result? = none)
    (ha : a.Stands pids) (hb : (a.after make config pids m).Stands pids) {pid : PathId}
    {hash : PathHash} (h : (a.after make config pids m).session.result? = some (.ok (pid, hash))) :
    a.session.race.nominate pid = (.ok (), (a.after make config pids m).session.race) := by
  have none_yet := ha.pending before
  obtain ⟨-, hn, -⟩ := hb.returned h
  cases m with
  | raise | sweep | pump => simp [after, onRace, none_yet] at hn
  | connect now s =>
    simp only [after] at hn
    split_ifs at hn <;> simp [none_yet] at hn
  | proceed progress now s =>
    have asked : a.session.nomination? = some pid := by
      simpa [after, none_yet, Option.toList_eq_singleton_iff] using hn
    exact nominate_of_nomination? asked h

theorem result?_run {a : Attempt E} {failure : Failure}
    (h : a.session.result? = some (.error failure)) (ms : List Move) :
    (a.run make config pids ms).session.result? = some (.error failure) := by
  induction ms generalizing a with
  | nil => exact h
  | cons m ms ih =>
    refine ih ?_
    obtain ⟨⟨race, state⟩, announced, nominations⟩ := a
    cases state with
    | failed => cases m <;> exact h
    | idle | racing | connected => simp [result?] at h

/-- When an attempt returns, either it has nominated the one winner that its election announced and
closed every other path once, or it has raised the signal; then every path is closed exactly once as
soon as the watcher has run, and it always can. -/
theorem connected_or_all_closed (he : pids ≠ []) (hn : pids.Nodup) (ms : List Move) (m : Move) :
    let a : Attempt E := new.run make config pids ms
    let b := a.after make config pids m
    a.session.result? = none →
      (∀ pid hash, b.session.result? = some (.ok (pid, hash)) →
        b.nominations = [pid] ∧ b.announced = [(pid, hash)] ∧
        (∃ engine, b.session.engine? = some engine ∧ Engine.nominatedPath engine = some pid) ∧
        pid ∈ pids ∧ (b.session.race.closes.map Prod.fst).count pid = 0 ∧
        ∀ q ∈ pids, q ≠ pid → (b.session.race.closes.map Prod.fst).count q = 1) ∧
      (∀ failure, b.session.result? = some (.error failure) →
        b.session.race.signal.cause.isSome = true ∧
        ∀ ns : List Move, let c := b.run make config pids ns
          c.session.result? = some (.error failure) ∧
          (c.after make config pids .sweep).session.race.watching = false ∧
          (c.session.race.watching = false →
            ∀ q ∈ pids, (c.session.race.closes.map Prod.fst).count q = 1)) := by
  intro a b before
  have ha : a.Stands pids := stands_run he hn stands_new ms
  have hb : b.Stands pids := stands_after he hn ha m
  refine ⟨fun pid hash h => ?_, fun failure h => ⟨(hb.refused h).2, fun ns => ?_⟩⟩
  · obtain ⟨kept, hno, han, hen⟩ := hb.returned h
    have left : b.session.race.pids = [pid] :=
      Race.pids_of_nominate (nominate_of_returned before ha hb h)
    have perm : (b.session.race.closes.map Prod.fst ++ [pid]).Perm pids := left ▸ kept.accounted
    have distinct := List.nodup_append.1 (perm.nodup_iff.2 hn)
    refine ⟨hno, han, hen, perm.subset (by simp), ?_, fun q hq hne => ?_⟩
    · exact List.count_eq_zero_of_not_mem fun hm => distinct.2.2 pid hm pid (by simp) rfl
    · refine List.count_eq_one_of_mem distinct.1 ?_
      simpa [hne] using perm.mem_iff.2 hq
  · have hc : (b.run make config pids ns).Stands pids := stands_run he hn hb ns
    have hf : (b.run make config pids ns).session.result? = some (.error failure) := result?_run h ns
    obtain ⟨kept, raised⟩ := hc.refused hf
    refine ⟨hf, kept.watching_sweep raised, fun hw q hq => ?_⟩
    exact List.count_eq_one_of_mem ((kept.closes_perm hw).nodup_iff.2 hn)
      ((kept.closes_perm hw).mem_iff.2 hq)

/-- Takes any chunk for a nomination of its path. -/
def willing : Script where
  isNominator := false
  frames := .ok []
  rules := [⟨none, none, none, [.plain (.news (.nominated (Octets.zero 32)))]⟩]
  nominations := []
  creation := none
  queue := []
  nominated := none
  calls := []

/-- A chunk on the second of two paths, and a run whose signal is raised instead. -/
theorem connected_or_all_closed_willing :
    let make : Setup → Except EngineFault Script := fun _ => .ok willing
    let config : Config := .standard .responder (Octets.zero 32)
    let go : Move := .proceed (.inl (.ok ())) 0 (.cycle [])
    let a := new.run make config [5, 3]
      [.connect 0 (.cycle []), go, .pump 3 (some (.chunk [1])), .pump 3 none, go, go]
    let x := new.run make config [5, 3] [.connect 0 (.cycle []), .raise .cancelled, go]
    let b := a.after make config [5, 3] go
    let y := x.after make config [5, 3] go
    let z := y.run make config [5, 3] [.sweep]
    ([5, 3] : List PathId) ≠ [] ∧ ([5, 3] : List PathId).Nodup ∧
    (a.session.result? = none ∧ b.session.result? = some (.ok (3, Octets.zero 32)) ∧
      b.nominations = [3] ∧ ∀ q ∈ ([5, 3] : List PathId), q ≠ 3 →
        (b.session.race.closes.map Prod.fst).count q = 1) ∧
    (x.session.result? = none ∧ y.session.result? = some (.error .cancelled) ∧
      y.session.race.signal.cause.isSome = true ∧ z.session.race.watching = false ∧
      ∀ q ∈ ([5, 3] : List PathId), (z.session.race.closes.map Prod.fst).count q = 1) := by
  intro make config go a x b y z
  have he : ([5, 3] : List PathId) ≠ [] := by decide
  have hn : ([5, 3] : List PathId).Nodup := by decide
  have open_a : a.session.result? = none := by cbv
  have open_x : x.session.result? = none := by cbv
  have won : b.session.result? = some (.ok (3, Octets.zero 32)) := by cbv
  have lost : y.session.result? = some (.error .cancelled) := by cbv
  have swept : z.session.race.watching = false := by cbv
  obtain ⟨hno, -, -, -, -, others⟩ :=
    (connected_or_all_closed he hn _ go open_a).1 _ _ won
  obtain ⟨raised, later⟩ := (connected_or_all_closed he hn _ go open_x).2 _ lost
  exact ⟨he, hn, ⟨open_a, won, hno, others⟩, open_x, lost, raised, swept,
    (later [.sweep]).2.2 swept⟩

end Attempt

end PathRace
