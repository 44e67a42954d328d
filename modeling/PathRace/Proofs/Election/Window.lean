import PathRace.Proofs.Election.WinnerTakesAll

/-! Which path a decision window selects. Until a path is requested, the shortlist holds exactly the
reports since the last deadline (`Holds`): a call adds the reports it receives (`gathers_call`), and a
deadline requests the live candidate with the smallest round trip (`onDeadline_of_holds`). A window of
length zero makes the same choices as the policy without a window (`life_hasty`). -/

namespace PathRace

/-- A path reported ready, with its round trip. -/
structure Report where
  pid : PathId
  rtt : Nat
  time : Nat
  deriving DecidableEq

/-- The result of a deadline: the path with the least round trip of those reported and alive, the
earliest of equals, or none. -/
inductive Chosen (live : List PathId) (reports : List Report) : List PathId → Prop
  | nobody (gone : ∀ r ∈ reports, r.pid ∉ live) : Chosen live reports []
  | best {before after : List Report} {r : Report} (split : reports = before ++ r :: after)
      (alive : r.pid ∈ live) (earlier : ∀ q ∈ before, q.pid ∈ live → r.rtt < q.rtt)
      (later : ∀ q ∈ after, q.pid ∈ live → r.rtt ≤ q.rtt) : Chosen live reports [r.pid]

/-- The report in an answer. An outcome with a payload is a breach of contract, and its report does not
count. -/
def Asked.report? (now : Nat) : Asked → Option Report
  | processed pid (.ok (some ⟨some (.ready rtt), _, none⟩)) => some ⟨pid, rtt, now⟩
  | _ => none

namespace Shortlist

theorem chosen_of_quickest (live : List PathId) (reports : List Report) :
    Chosen live reports ((quickest ((reports.map fun r => (r.pid, r.rtt)).filter
      fun c => live.contains c.1)).map Prod.fst).toList := by
  have live_iff (r : Report) : live.contains r.pid = true ↔ r.pid ∈ live := List.contains_iff_mem
  rw [List.filter_map]
  cases h : quickest ((reports.filter ((fun c => live.contains c.1) ∘ fun r => (r.pid, r.rtt))).map
    fun r => (r.pid, r.rtt)) with
  | none =>
    have nobody := List.map_eq_nil_iff.1 (quickest_eq_none_iff.1 h)
    refine .nobody fun r hr alive => ?_
    exact (List.filter_eq_nil_iff.1 nobody) r hr ((live_iff r).2 alive)
  | some c =>
    obtain ⟨first, rest, split, earlier, later⟩ := split_of_quickest h
    obtain ⟨_, _, among, rfl, mapped⟩ := List.map_eq_append_iff.1 split
    obtain ⟨r, _, rfl, rfl, rfl⟩ := List.map_eq_cons_iff.1 mapped
    obtain ⟨before, _, rfl, rfl, kept⟩ := List.filter_eq_append_iff.1 among
    obtain ⟨gap, after, rfl, gone, alive, rfl⟩ := List.filter_eq_cons_iff.1 kept
    refine .best (List.append_assoc ..).symm ((live_iff r).1 alive) (fun q hq living => ?_)
      fun q hq living => ?_
    · rcases List.mem_append.1 hq with hq | hq
      · exact earlier _ (List.mem_map_of_mem (List.mem_filter.2 ⟨hq, (live_iff q).2 living⟩))
      · exact (gone q hq ((live_iff q).2 living)).elim
    · exact later _ (List.mem_map_of_mem (List.mem_filter.2 ⟨hq, (live_iff q).2 living⟩))

/-! ### A shortlist -/

/-- The shortlist after these reports since the last deadline, and with these paths requested. -/
def holding (window : Nat) (reports : List Report) : List PathId → Shortlist
  | [] => ⟨.bestRtt window, reports.map fun r => (r.pid, r.rtt),
      reports.head?.map fun r => r.time + window, none⟩
  | pid :: _ => ⟨.bestRtt window, [], none, some pid⟩

variable {window : Nat} {reports : List Report} {chosen : List PathId}

theorem onReady_holding (hw : 0 < window) (pid : PathId) (rtt now : Nat) :
    (holding window reports chosen).onReady pid rtt now =
      (none, holding window (reports ++ [⟨pid, rtt, now⟩]) chosen) := by
  cases chosen with
  | nil => cases reports <;> simp [holding, onReady, hw.ne']
  | cons => rfl

theorem expire_holding (window : Nat) (reports : List Report) (chosen : List PathId)
    (live : List PathId) :
    ∃ choice, (holding window reports chosen).expire live =
        (choice, holding window [] (chosen ++ choice.toList)) ∧
      (chosen = [] → Chosen live reports choice.toList) ∧ (chosen ≠ [] → choice = none) := by
  cases chosen with
  | nil =>
    have best := chosen_of_quickest live reports
    simp only [expire, choose, holding]
    revert best
    cases quickest ((reports.map fun r => (r.pid, r.rtt)).filter fun c => live.contains c.1) with
    | none => exact fun best => ⟨none, rfl, fun _ => best, fun _ => rfl⟩
    | some c => exact fun best => ⟨some c.1, rfl, fun _ => best, fun some => (some rfl).elim⟩
  | cons pid rest =>
    have unchanged : (holding window reports (pid :: rest)).expire live =
        (none, holding window [] (pid :: rest)) := rfl
    refine ⟨none, ?_, fun nothing => absurd nothing (List.cons_ne_nil pid rest), fun _ => rfl⟩
    rw [unchanged, Option.toList_none, List.append_nil]

/-! ### Shortlists with a window of no length -/

/-- The same shortlist with the eager policy. -/
def hasty (l : Shortlist) : Shortlist := { l with policy := .eager }

/-- A window of length zero, with no candidate held. -/
def Instant (l : Shortlist) : Prop := l.policy = .bestRtt 0 ∧ l.candidates = []

variable {l : Shortlist}

theorem onReady_hasty (h : l.Instant) (pid : PathId) (rtt now : Nat) :
    l.hasty.onReady pid rtt now =
        ((l.onReady pid rtt now).1, (l.onReady pid rtt now).2.hasty) ∧
      (l.onReady pid rtt now).2.Instant := by
  obtain ⟨policy, candidates, deadline, requested⟩ := l
  obtain ⟨rfl, rfl⟩ := h
  cases requested <;> exact ⟨rfl, rfl, rfl⟩

theorem expire_hasty (h : l.Instant) (live : List PathId) :
    l.hasty.expire live = ((l.expire live).1, (l.expire live).2.hasty) ∧
      (l.expire live).2.Instant := by
  obtain ⟨policy, candidates, deadline, requested⟩ := l
  obtain ⟨rfl, rfl⟩ := h
  exact ⟨rfl, rfl, rfl⟩

end Shortlist

namespace Election

variable {E : Type} [Engine E]

/-! ### The reports -/

def Call.now : Call → Nat
  | .start now _ => now
  | .handle _ now _ => now

/-- The live paths of a deadline that an open election handles. -/
def closing? (c : Call) (e : Election E) : Option (List PathId) :=
  match c with
  | .handle (.deadline live) _ _ => if e.phase = .nominating then some live else none
  | _ => none

def gather (c : Call) (e : Election (Watched E)) (reports : List Report) : List Report :=
  match e.closing? c with
  | some _ => []
  | none =>
    reports ++ ((e.call c).2.engine.log.drop e.engine.log.length).filterMap (Asked.report? c.now)

/-- The reports since the last deadline after a list of calls. -/
def gathered : List Call → Election (Watched E) → List Report → List Report
  | [], _, reports => reports
  | c :: cs, e, reports => gathered cs (e.call c).2 (e.gather c reports)

def Holds (window : Nat) (reports : List Report) (e : Election (Watched E)) : Prop :=
  e.shortlist = .holding window reports e.engine.nominations

omit [Engine E] in
theorem Holds.deadline_of_nothing {window : Nat} {reports : List Report} {e : Election (Watched E)}
    (h : e.Holds window reports) (nothing : reports = [] ∨ e.engine.nominations ≠ []) :
    e.deadline = none := by
  have nothing : (Shortlist.holding window reports e.engine.nominations).deadline = none := by
    cases hn : e.engine.nominations with
    | nil =>
      obtain rfl := nothing.resolve_right fun some => some hn
      rfl
    | cons => rfl
  rw [Election.deadline, h, nothing, ite_self]

/-- The engine has been the nominator in every state. -/
def Entitled (e : Election (Watched E)) : Prop := ∀ a ∈ e.engine.seen, Engine.isNominator a = true

/-- Between the two elections the reports have been collected and no path has been requested. -/
structure Gathers (window now : Nat) (e e' : Election (Watched E)) : Prop where
  -- without any condition, so that a nominator at the end has been one all along
  seen : e.engine.seen ⊆ e'.engine.seen
  holds : e'.Entitled → ∀ reports, e.Holds window reports → ∃ asked,
    e'.engine.log = e.engine.log ++ asked ∧
      e'.Holds window (reports ++ asked.filterMap (Asked.report? now)) ∧
      e'.engine.nominations = e.engine.nominations

variable {window now : Nat} {e e₁ e' : Election (Watched E)} {c : Call} {pid : PathId}
  {reports : List Report}

theorem Gathers.refl (e : Election (Watched E)) : Gathers window now e e :=
  ⟨List.Subset.refl _, fun _ reports held => ⟨[], by simp, by simpa using held, rfl⟩⟩

theorem Gathers.trans (h : Gathers window now e e₁) (k : Gathers window now e₁ e') :
    Gathers window now e e' where
  seen := List.Subset.trans h.seen k.seen
  holds entitled reports held := by
    obtain ⟨asked, log, held, same⟩ := h.holds (fun a ha => entitled a (k.seen ha)) reports held
    obtain ⟨asked', log', held, same'⟩ := k.holds entitled _ held
    refine ⟨asked ++ asked', by rw [log', log, List.append_assoc], ?_, same'.trans same⟩
    rwa [List.filterMap_append, ← List.append_assoc]

theorem Gathers.phase (h : Gathers window now e e') (phase : Phase) :
    Gathers window now e { e' with phase } := ⟨h.seen, h.holds⟩

theorem gathers_note {a : Asked} (other : a.nomination? = none) (quiet : a.report? now = none)
    (engine : E) : Gathers window now e { e with engine := e.engine.note a engine } where
  seen := List.subset_append_left ..
  holds _ reports held := by
    have same := Watched.nominations_note other e.engine engine
    refine ⟨[a], rfl, ?_, same⟩
    simpa [Holds, same, quiet] using held

theorem nominate_leaves (pid : PathId) (e : Election (Watched E)) :
    e.engine.seen ⊆ (e.nominate pid).2.engine.seen ∧
      (e.nominate pid).2.engine.nominations = e.engine.nominations ++ [pid] ∧
      (e.nominate pid).2.shortlist = e.shortlist := by
  unfold nominate
  rw [Watched.nominate_eq]
  rcases Engine.nominate pid e.engine.engine with ⟨fault | o, engine⟩
  · exact ⟨List.subset_append_left .., Watched.nominations_note_nominated .., rfl⟩
  · dsimp only
    rcases accept_leaves pid o (fun _ e => (.ok [], e))
      { e with engine := e.engine.note (.nominated pid (.ok o)) engine } with he | he | ⟨_, he⟩ <;>
    · rw [he]
      exact ⟨List.subset_append_left .., Watched.nominations_note_nominated .., rfl⟩

theorem seen_onReady (pid : PathId) (now rtt : Nat) (e : Election (Watched E)) :
    e.engine.seen ⊆ (e.onReady pid now rtt).2.engine.seen := by
  unfold onReady
  split_ifs
  · rcases e.shortlist.onReady pid rtt now with ⟨_ | chosen, shortlist⟩
    · exact List.Subset.refl _
    · exact (nominate_leaves chosen { e with shortlist }).1
  · exact List.Subset.refl _

theorem onReady_of_holds (hw : 0 < window) (nominator : Engine.isNominator e.engine = true)
    (held : e.Holds window reports) (pid : PathId) (now rtt : Nat) :
    e.onReady pid now rtt = (.ok [],
      ⟨e.engine, e.phase, .holding window (reports ++ [⟨pid, rtt, now⟩]) e.engine.nominations⟩) := by
  unfold onReady
  rw [if_neg (not_not.2 nominator), held, Shortlist.onReady_holding hw]

theorem gathers_report (hw : 0 < window) {rtt : Nat} {a : Asked} (other : a.nomination? = none)
    (report : a.report? now = some ⟨pid, rtt, now⟩) (engine : E) :
    Gathers window now e
      (onReady pid now rtt { e with engine := e.engine.note a engine }).2 where
  seen := List.Subset.trans (List.subset_append_left ..)
    (seen_onReady pid now rtt { e with engine := e.engine.note a engine })
  holds entitled reports held := by
    have same := Watched.nominations_note other e.engine engine
    have held : Holds window reports { e with engine := e.engine.note a engine } := by
      rw [Holds, same]
      exact held
    have nominator : Engine.isNominator engine = true := entitled engine
      (seen_onReady pid now rtt { e with engine := e.engine.note a engine } (by simp [Watched.note]))
    rw [onReady_of_holds hw nominator held]
    exact ⟨[a], rfl, by simp [Holds, report], same⟩

theorem accept_reports (pid : PathId) (o : Outcome) (now : Nat)
    (onReady : Nat → Election E → Except Failure (List Action) × Election E) (e : Election E) :
    (∃ rtt, (Asked.processed pid (.ok (some o))).report? now = some ⟨pid, rtt, now⟩ ∧
      (e.accept pid o onReady).2 = (onReady rtt e).2) ∨
    ((Asked.processed pid (.ok (some o))).report? now = none ∧
      ∃ phase, (e.accept pid o onReady).2 = { e with phase }) := by
  rcases o with ⟨update, out, _ | data⟩
  · rcases update with _ | rtt | hash
    · exact .inr ⟨rfl, e.phase, rfl⟩
    · exact .inl ⟨rtt, rfl, rfl⟩
    · refine .inr ⟨rfl, ?_⟩
      by_cases named : Engine.nominatedPath e.engine = some pid
      · exact ⟨.nominated, by simp [accept, named]⟩
      · exact ⟨e.phase, by simp [accept, named]⟩
  · exact .inr ⟨by rcases update with _ | rtt | hash <;> rfl, e.phase, rfl⟩

theorem gathers_accept (hw : 0 < window) (o : Outcome) (engine : E) :
    Gathers window now e (Election.accept pid o (onReady pid now)
      { e with engine := e.engine.note (.processed pid (.ok (some o))) engine }).2 := by
  rcases accept_reports pid o now (onReady pid now)
    { e with engine := e.engine.note (.processed pid (.ok (some o))) engine } with
    ⟨rtt, report, he⟩ | ⟨quiet, phase, he⟩
  · rw [he]
    exact gathers_report hw rfl report engine
  · rw [he]
    exact (gathers_note rfl quiet engine).phase phase

theorem gathers_drain (hw : 0 < window) (n : Nat) (s : Entropy) :
    Gathers window now e (drain pid now n e s).2.1 := by
  induction n generalizing e s with
  | zero => exact .refl e
  | succ n ih =>
    rw [drain]
    by_cases hp : e.phase = .nominating
    · rw [if_neg (not_not.2 hp), Watched.processFrame_eq]
      rcases Engine.processFrame pid now e.engine.engine s with ⟨fault | _ | o, engine, s⟩
      · exact gathers_note rfl rfl engine
      · exact gathers_note rfl rfl engine
      · have accepted : Gathers window now e (Election.accept pid o (onReady pid now)
            { e with engine := e.engine.note (.processed pid (.ok (some o))) engine }).2 :=
          gathers_accept hw o engine
        revert accepted
        dsimp only
        generalize Election.accept (E := Watched E) pid o _ _ = accepted
        rcases accepted with ⟨failure | first, e₁⟩
        · exact id
        · exact fun accepted => accepted.trans (ih s)
    · rw [if_pos hp]
      exact .refl e

theorem gathers_onChunk (hw : 0 < window) (chunk : Bytes) (s : Entropy) :
    Gathers window now e (e.onChunk pid chunk now s).2.1 := by
  unfold onChunk
  rw [Watched.addChunk_eq]
  rcases Engine.addChunk pid chunk e.engine.engine with ⟨fault | _, engine⟩
  · exact gathers_note rfl rfl engine
  · have fed : Gathers window now e { e with engine := e.engine.note (.fed pid (.ok ())) engine } :=
      gathers_note rfl rfl engine
    exact fed.trans (gathers_drain hw _ s)

theorem gathers_start (s : Entropy) : Gathers window now e (e.start now s).2.1 := by
  unfold start
  rw [Watched.initialFrames_eq]
  split_ifs
  · exact .refl e
  · rcases Engine.initialFrames now e.engine.engine s with ⟨fault | frames, engine, s⟩
    · exact gathers_note rfl rfl engine
    · exact (gathers_note (a := .started (.ok frames)) rfl rfl engine).phase .nominating

theorem handle_frame (open' : e.phase = .nominating) (pid : PathId) (chunk : Bytes) (now : Nat)
    (s : Entropy) : ∃ phase, (e.handle (.frame pid chunk) now s).2.1 =
      { (e.onChunk pid chunk now s).2.1 with phase } := by
  unfold handle
  rw [if_neg (not_not.2 open')]
  dsimp only
  rcases e.onChunk pid chunk now s with ⟨failure | actions, e', s⟩
  · exact ⟨.aborted, rfl⟩
  · exact ⟨e'.phase, rfl⟩

theorem handle_deadline (open' : e.phase = .nominating) (live : List PathId) (now : Nat)
    (s : Entropy) : ∃ phase, (e.handle (.deadline live) now s).2.1 =
      { (e.onDeadline live).2 with phase } := by
  unfold handle
  rw [if_neg (not_not.2 open')]
  dsimp only
  rcases e.onDeadline live with ⟨failure | actions, e'⟩
  · exact ⟨.aborted, rfl⟩
  · exact ⟨e'.phase, rfl⟩

theorem gathers_call (hw : 0 < window) (other : e.closing? c = none) :
    Gathers window c.now e (e.call c).2 := by
  cases c with
  | start now s => exact gathers_start s
  | handle event now s =>
    by_cases open' : e.phase = .nominating
    · cases event with
      | frame pid chunk =>
        obtain ⟨phase, he⟩ := handle_frame open' pid chunk now s
        simp only [call, he]
        exact (gathers_onChunk hw chunk s).phase phase
      | deadline live => simp [closing?, open'] at other
    · have refused : (e.handle event now s).2.1 = e := by simp [handle, open']
      simp only [call, refused]
      exact .refl e

theorem seen_onDeadline (live : List PathId) (e : Election (Watched E)) :
    e.engine.seen ⊆ (e.onDeadline live).2.engine.seen := by
  unfold onDeadline
  rcases e.shortlist.expire live with ⟨_ | chosen, shortlist⟩
  · exact List.Subset.refl _
  · exact (nominate_leaves chosen { e with shortlist }).1

theorem onDeadline_of_holds (held : e.Holds window reports) (live : List PathId) :
    (e.onDeadline live).2.Holds window [] ∧
      (e.engine.nominations = [] → Chosen live reports (e.onDeadline live).2.engine.nominations) ∧
      (e.engine.nominations ≠ [] →
        (e.onDeadline live).2.engine.nominations = e.engine.nominations) := by
  obtain ⟨choice, expired, best, settled⟩ :=
    Shortlist.expire_holding window reports e.engine.nominations live
  unfold onDeadline
  rw [held, expired]
  cases choice with
  | none => exact ⟨by simp [Holds], fun never => never ▸ best never, fun _ => rfl⟩
  | some pid =>
    obtain ⟨-, asked, same⟩ := nominate_leaves pid
      { e with shortlist := .holding window [] (e.engine.nominations ++ [pid]) }
    dsimp only [Option.toList_some]
    refine ⟨?_, fun never => ?_, fun some => nomatch settled some⟩
    · rw [Holds, same, asked]
    · rw [asked, never]
      exact best never

omit [Engine E] in
theorem closing_cases {live : List PathId} (closing : e.closing? c = some live) :
    ∃ now s, c = .handle (.deadline live) now s ∧ e.phase = .nominating := by
  unfold closing? at closing
  split at closing
  · split_ifs at closing with open'
    obtain rfl := Option.some.inj closing
    exact ⟨_, _, rfl, open'⟩
  · cases closing

/-! ### Whole lives -/

theorem seen_call (hw : 0 < window) (c : Call) (e : Election (Watched E)) :
    e.engine.seen ⊆ (e.call c).2.engine.seen := by
  cases closing : e.closing? c with
  | none => exact (gathers_call hw closing).seen
  | some live =>
    obtain ⟨now, s, rfl, open'⟩ := closing_cases closing
    obtain ⟨phase, he⟩ := handle_deadline open' live now s
    simp only [call, he]
    exact seen_onDeadline live e

theorem holds_call (hw : 0 < window) (held : e.Holds window reports)
    (entitled : (e.call c).2.Entitled) :
    (e.call c).2.Holds window (e.gather c reports) ∧
      (e.engine.nominations = [] → match e.closing? c with
        | some live => Chosen live reports (e.call c).2.engine.nominations
        | none => (e.call c).2.engine.nominations = []) ∧
      (e.engine.nominations ≠ [] → (e.call c).2.engine.nominations = e.engine.nominations) := by
  unfold gather
  cases closing : e.closing? c with
  | none =>
    obtain ⟨asked, log, held, same⟩ := (gathers_call hw closing).holds entitled reports held
    rw [log, List.drop_left]
    exact ⟨held, fun never => same.trans never, fun _ => same⟩
  | some live =>
    obtain ⟨now, s, rfl, open'⟩ := closing_cases closing
    obtain ⟨phase, he⟩ := handle_deadline open' live now s
    simp only [call, he]
    exact onDeadline_of_holds held live

theorem seen_life (hw : 0 < window) (cs : List Call) (e : Election (Watched E)) :
    e.engine.seen ⊆ (life cs e).2.engine.seen := by
  induction cs generalizing e with
  | nil => exact List.Subset.refl _
  | cons c cs ih => exact List.Subset.trans (seen_call hw c e) (ih (e.call c).2)

theorem holds_life (hw : 0 < window) (cs : List Call) (held : e.Holds window reports)
    (entitled : (life cs e).2.Entitled) :
    (life cs e).2.Holds window (gathered cs e reports) := by
  induction cs generalizing e reports with
  | nil => exact held
  | cons c cs ih =>
    have before : (e.call c).2.Entitled := fun a ha => entitled a (seen_life hw cs (e.call c).2 ha)
    exact ih (holds_call hw held before).1 entitled

/-! ### Elections with a window of no length -/

/-- The same election with the eager policy. -/
def hasty (e : Election E) : Election E := { e with shortlist := e.shortlist.hasty }

/-- The same result as the eager policy, and nothing is held afterwards. -/
def Alike (a b : Except Failure (List Action) × Election E) : Prop :=
  b = (a.1, a.2.hasty) ∧ a.2.shortlist.Instant

section

variable {e : Election E}

theorem alike_accept (pid : PathId) (o : Outcome)
    {onReady onReady' : Nat → Election E → Except Failure (List Action) × Election E}
    (instant : e.shortlist.Instant) (ready : ∀ rtt, Alike (onReady rtt e) (onReady' rtt e.hasty)) :
    Alike (e.accept pid o onReady) (e.hasty.accept pid o onReady') := by
  rcases o with ⟨update, out, _ | data⟩
  · rcases update with _ | rtt | hash
    · exact ⟨rfl, instant⟩
    · obtain ⟨same, instant⟩ := ready rtt
      exact ⟨by simp [accept, same], instant⟩
    · have same : Engine.nominatedPath e.hasty.engine = Engine.nominatedPath e.engine := rfl
      by_cases named : Engine.nominatedPath e.engine = some pid
      · have accepted : e.accept pid ⟨some (.nominated hash), out, none⟩ onReady =
            (.ok (out.toList.map (Action.send pid) ++ [.nominated pid hash]),
              { e with phase := .nominated }) := by simp [accept, named]
        rw [accepted]
        exact ⟨by simp [accept, same, named]; rfl, instant⟩
      · have accepted : e.accept pid ⟨some (.nominated hash), out, none⟩ onReady =
            (.error (e.violation "nominated notice for a path not nominated"), e) := by
          simp [accept, named]
        rw [accepted]
        exact ⟨by simp [accept, same, named]; rfl, instant⟩
  · exact ⟨rfl, instant⟩

theorem alike_nominate (pid : PathId) (instant : e.shortlist.Instant) :
    Alike (e.nominate pid) (e.hasty.nominate pid) := by
  unfold nominate
  rw [show e.hasty.engine = e.engine from rfl]
  rcases Engine.nominate pid e.engine with ⟨fault | o, engine⟩
  · exact ⟨rfl, instant⟩
  · exact alike_accept (e := { e with engine }) pid o instant fun _ => ⟨rfl, instant⟩

theorem alike_onReady (pid : PathId) (now rtt : Nat) (instant : e.shortlist.Instant) :
    Alike (e.onReady pid now rtt) (e.hasty.onReady pid now rtt) := by
  unfold onReady
  rw [show e.hasty.engine = e.engine from rfl, show e.hasty.shortlist = e.shortlist.hasty from rfl]
  split_ifs
  · obtain ⟨same, instant⟩ := Shortlist.onReady_hasty instant pid rtt now
    rw [same]
    revert instant
    rcases e.shortlist.onReady pid rtt now with ⟨_ | chosen, shortlist⟩
    · exact fun instant => ⟨rfl, instant⟩
    · exact fun instant => alike_nominate (e := { e with shortlist }) chosen instant
  · exact ⟨rfl, instant⟩

theorem alike_onDeadline (live : List PathId) (instant : e.shortlist.Instant) :
    Alike (e.onDeadline live) (e.hasty.onDeadline live) := by
  unfold onDeadline
  rw [show e.hasty.shortlist = e.shortlist.hasty from rfl]
  obtain ⟨same, instant⟩ := Shortlist.expire_hasty instant live
  rw [same]
  revert instant
  rcases e.shortlist.expire live with ⟨_ | chosen, shortlist⟩
  · exact fun instant => ⟨rfl, instant⟩
  · exact fun instant => alike_nominate (e := { e with shortlist }) chosen instant

/-- As `Alike`, for results with randomness. -/
def AlikeDraws (a b : Except Failure (List Action) × Election E × Entropy) : Prop :=
  b = (a.1, a.2.1.hasty, a.2.2) ∧ a.2.1.shortlist.Instant

theorem alike_drain (pid : PathId) (now n : Nat) (s : Entropy) (instant : e.shortlist.Instant) :
    AlikeDraws (drain pid now n e s) (drain pid now n e.hasty s) := by
  induction n generalizing e s with
  | zero => exact ⟨rfl, instant⟩
  | succ n ih =>
    rw [drain, drain, show e.hasty.engine = e.engine from rfl, show e.hasty.phase = e.phase from rfl,
      show e.hasty.shortlist = e.shortlist.hasty from rfl]
    split_ifs
    · exact ⟨rfl, instant⟩
    · rcases Engine.processFrame pid now e.engine s with ⟨fault | _ | o, engine, s⟩
      · exact ⟨rfl, instant⟩
      · exact ⟨rfl, instant⟩
      · have accepted : Alike (Election.accept pid o (onReady pid now) { e with engine })
            (Election.accept pid o (onReady pid now) ⟨engine, e.phase, e.shortlist.hasty⟩) :=
          alike_accept (e := { e with engine }) pid o instant fun rtt =>
            alike_onReady (e := { e with engine }) pid now rtt instant
        obtain ⟨same, instant⟩ := accepted
        dsimp only
        rw [same]
        revert instant
        rcases Election.accept pid o (onReady pid now) { e with engine } with ⟨failure | first, e₁⟩
        · exact fun instant => ⟨rfl, instant⟩
        · intro instant
          obtain ⟨rest, instant⟩ := ih s instant
          dsimp only
          rw [rest]
          exact ⟨rfl, instant⟩

theorem alike_onChunk (pid : PathId) (chunk : Bytes) (now : Nat) (s : Entropy)
    (instant : e.shortlist.Instant) :
    AlikeDraws (e.onChunk pid chunk now s) (e.hasty.onChunk pid chunk now s) := by
  unfold onChunk
  rw [show e.hasty.engine = e.engine from rfl]
  rcases Engine.addChunk pid chunk e.engine with ⟨fault | _, engine⟩
  · exact ⟨rfl, instant⟩
  · exact alike_drain (e := { e with engine }) pid now _ s instant

theorem alike_start (now : Nat) (s : Entropy) (instant : e.shortlist.Instant) :
    AlikeDraws (e.start now s) (e.hasty.start now s) := by
  unfold start
  rw [show e.hasty.engine = e.engine from rfl, show e.hasty.phase = e.phase from rfl]
  split_ifs
  · exact ⟨rfl, instant⟩
  · rcases Engine.initialFrames now e.engine s with ⟨fault | frames, engine, s⟩
    · exact ⟨rfl, instant⟩
    · exact ⟨rfl, instant⟩

theorem alike_handle (event : Event) (now : Nat) (s : Entropy) (instant : e.shortlist.Instant) :
    AlikeDraws (e.handle event now s) (e.hasty.handle event now s) := by
  unfold handle
  rw [show e.hasty.phase = e.phase from rfl]
  split_ifs
  · exact ⟨rfl, instant⟩
  · cases event with
    | frame pid chunk =>
      obtain ⟨same, instant⟩ := alike_onChunk pid chunk now s instant
      dsimp only
      rw [same]
      revert instant
      rcases e.onChunk pid chunk now s with ⟨failure | actions, e, s⟩ <;>
        exact fun instant => ⟨rfl, instant⟩
    | deadline live =>
      obtain ⟨same, instant⟩ := alike_onDeadline live instant
      dsimp only
      rw [same]
      revert instant
      rcases e.onDeadline live with ⟨failure | actions, e⟩ <;>
        exact fun instant => ⟨rfl, instant⟩

theorem alike_call (c : Call) (instant : e.shortlist.Instant) :
    Alike (e.call c) (e.hasty.call c) := by
  cases c with
  | start now s =>
    obtain ⟨same, instant⟩ := alike_start now s instant
    exact ⟨by simp only [call, same], instant⟩
  | handle event now s =>
    obtain ⟨same, instant⟩ := alike_handle event now s instant
    exact ⟨by simp only [call, same], instant⟩

theorem life_hasty (cs : List Call) (instant : e.shortlist.Instant) :
    life cs e.hasty = ((life cs e).1, (life cs e).2.hasty) := by
  induction cs generalizing e with
  | nil => rfl
  | cons c cs ih =>
    obtain ⟨same, instant⟩ := alike_call c instant
    simp only [life, same, ih instant]

end

/-- With a window, an election over a nominator picks the best path. As long as no path has been
requested, the window is open from the first report after the last deadline on, and later reports do not
prolong it. A deadline requests the path with the least round trip among those alive, the earliest of
equals, or none, in which case the next report opens a new window; no other call requests a path, and
nothing is requested twice. A window of length zero gives the same results as the eager policy. -/
theorem best_of_window (engine : E) (window : Nat) (cs : List Call) (c : Call) :
    let start := new (Watched.new engine) (.bestRtt window)
    let e := (life cs start).2
    let e' := (e.call c).2
    let reports := gathered cs start []
    life cs (new engine (.bestRtt window)) = ((life cs start).1, e.unwatched) ∧
    (0 < window → e'.Entitled →
      (e.engine.nominations = [] →
        e.deadline = (if e.phase = .nominating then
          reports.head?.map fun first => first.time + window else none) ∧
        match e.closing? c with
        | some live => Chosen live reports e'.engine.nominations ∧ e'.deadline = none
        | none => e'.engine.nominations = []) ∧
      (e.engine.nominations ≠ [] → e.deadline = none ∧ e'.deadline = none ∧
        e'.engine.nominations = e.engine.nominations)) ∧
    (window = 0 → ∃ eager,
      life cs (new (Watched.new engine) .eager) = ((life cs start).1, eager) ∧
      life cs (new engine .eager) = ((life cs start).1, eager.unwatched) ∧
      eager.engine = e.engine ∧ eager.phase = e.phase ∧ eager.deadline = e.deadline) := by
  intro start e e' reports
  refine ⟨life_unwatched cs start, fun hw entitled => ?_, ?_⟩
  · have held : e.Holds window reports :=
      holds_life hw cs rfl fun a ha => entitled a (seen_call hw c e ha)
    obtain ⟨held', first, settled⟩ := holds_call hw held entitled
    refine ⟨fun never => ⟨?_, ?_⟩, fun some => ⟨?_, ?_, settled some⟩⟩
    · rw [deadline, held, never]
      rfl
    · have decided := first never
      cases closing : e.closing? c with
      | none => rwa [closing] at decided
      | some live =>
        rw [closing] at decided
        have emptied : e.gather c reports = [] := by rw [gather, closing]
        rw [emptied] at held'
        exact ⟨decided, held'.deadline_of_nothing (.inl rfl)⟩
    · exact held.deadline_of_nothing (.inr some)
    · exact held'.deadline_of_nothing (.inr (settled some ▸ some))
  · rintro rfl
    have same := life_hasty (e := start) cs ⟨rfl, rfl⟩
    have unwatched := life_unwatched cs start.hasty
    rw [same] at unwatched
    exact ⟨e.hasty, same, unwatched, rfl, rfl, rfl⟩

/-- A nominator with four paths, each ready with its first chunk. -/
def windowScript : Script where
  isNominator := true
  frames := .ok []
  rules := [(3, 30), (5, 10), (7, 10), (9, 5)].map fun (pid, rtt) =>
    ⟨some pid, none, none, [.plain (.news (.ready rtt))]⟩
  nominations := []
  creation := none
  queue := []
  nominated := none
  calls := []

def windowCalls : List Call :=
  .start 0 (.cycle []) :: [(3, 100), (5, 120), (7, 130), (9, 140)].map fun (pid, now) =>
    .handle (.frame pid [1]) now (.cycle [])

/-- The quickest path is no longer alive at the end of the window; of the next two, which are equally
quick, the one that reported first is requested. -/
theorem best_of_window_script :
    let start := new (Watched.new windowScript) (.bestRtt 50)
    let e := (life windowCalls start).2
    let e' := (e.call (.handle (.deadline [7, 5, 3]) 150 (.cycle []))).2
    e.deadline = some 150 ∧ e'.deadline = none ∧ e'.engine.nominations = [5] ∧
      Chosen [7, 5, 3] [⟨3, 30, 100⟩, ⟨5, 10, 120⟩, ⟨7, 10, 130⟩, ⟨9, 5, 140⟩] [5] ∧
      (life windowCalls (new windowScript (.bestRtt 0))).1 =
        (life windowCalls (new windowScript .eager)).1 := by
  intro start e e'
  have entitled : e'.Entitled := by unfold Entitled; decide +kernel
  have reports : gathered windowCalls start [] =
      [⟨3, 30, 100⟩, ⟨5, 10, 120⟩, ⟨7, 10, 130⟩, ⟨9, 5, 140⟩] := by decide +kernel
  have never : e.engine.nominations = [] := by decide +kernel
  have asked : e'.engine.nominations = [5] := by decide +kernel
  have open' : e.phase = .nominating := by decide +kernel
  have closing : e.closing? (.handle (.deadline [7, 5, 3]) 150 (.cycle [])) = some [7, 5, 3] := by
    rw [closing?, if_pos open']
  obtain ⟨-, picks, -⟩ := best_of_window windowScript 50 windowCalls
    (.handle (.deadline [7, 5, 3]) 150 (.cycle []))
  obtain ⟨opened, closed⟩ := (picks (by decide) entitled).1 never
  rw [closing] at closed
  rw [reports, if_pos open'] at opened
  obtain ⟨chosen, shut⟩ := closed
  rw [reports, asked] at chosen
  obtain ⟨instant, -, same⟩ := best_of_window windowScript 0 windowCalls (.start 0 (.cycle []))
  obtain ⟨eager, -, alike, -⟩ := same rfl
  exact ⟨opened, shut, asked, chosen, by rw [instant, alike]⟩

end Election

end PathRace
