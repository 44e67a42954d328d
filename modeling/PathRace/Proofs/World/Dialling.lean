import PathRace.Dial
import PathRace.Script
import PathRace.Proofs.World.Stations

/-! The paths of an attempt whose dialling fails. The paths that dialling has reached are closed with
the cause as the reason; those added before are dropped without a close (`failed_dial_closes_reached`). -/

namespace PathRace

/-- The targets that are reached, given the outlet and the answer of each. -/
def Config.reached (c : Config) (stopped : Option Nat) (dials : List (Outlet × Dial)) :
    List (PathId × Outlet) :=
  (c.targets.zip dials).filterMap fun (target, outlet, dial) =>
    match dial.result c.connectTimeout stopped with
    | .ok () => some (target.pid, outlet)
    | .error _ => none

namespace CloseReason

/-- An outlet may have been closed with `reason` unless it was closed before. -/
def Marks (reason : CloseReason) (before after : Option (Option CloseReason)) : Prop :=
  after = before ∨ after = before.map reason.orElse

variable {reason : CloseReason} {a b c : Option (Option CloseReason)}

theorem map_orElse_twice (reason : CloseReason) (a : Option (Option CloseReason)) :
    (a.map reason.orElse).map reason.orElse = a.map reason.orElse := by
  rw [Option.map_map]
  rfl

theorem Marks.map (h : reason.Marks a b) : b.map reason.orElse = a.map reason.orElse := by
  rcases h with rfl | rfl
  · rfl
  · exact map_orElse_twice reason a

theorem Marks.trans (h : reason.Marks a b) (k : reason.Marks b c) : reason.Marks a c := by
  rcases k with rfl | rfl
  · exact h
  · exact .inr h.map

theorem Marks.of_map (h : reason.Marks (a.map reason.orElse) b) : b = a.map reason.orElse := by
  rcases h with rfl | rfl
  · rfl
  · exact map_orElse_twice reason a

end CloseReason

namespace Link

/-- The reason of the first close of an outlet, if it is closed; nothing if it is no end of a path. -/
def ending? (e : End) (l : Link) : Option (Option CloseReason) :=
  match l.carrier with
  | .probe p => some p.closes.head?
  | .loopback x => some x.closed
  | .socket x => (x.standing? e).map Prod.fst

theorem ending?_dropReader (e e' : End) (l : Link) : (l.dropReader e').ending? e = l.ending? e := by
  obtain ⟨pid, p | x | x⟩ := l
  · rfl
  · exact congrArg some (Loopback.closed_setInward ..)
  · exact congrArg (·.map Prod.fst) (x.standing?_dropReader e' e)

theorem ending?_dropWriter (e e' : End) (l : Link) : (l.dropWriter e').ending? e = l.ending? e := by
  obtain ⟨pid, p | x | x⟩ := l
  · rfl
  · exact congrArg some (Loopback.closed_setInward ..)
  · exact congrArg (·.map Prod.fst) (x.standing?_dropWriter e' e)

theorem ending?_close_self (e : End) (reason : CloseReason) (l : Link) :
    (l.close e reason).ending? e = (l.ending? e).map reason.orElse := by
  obtain ⟨pid, ⟨inbox, feeding, mode, closes, written⟩ | x | x⟩ := l
  · cases closes <;> rfl
  · rfl
  · have closed := x.standing?_close e e reason
    rw [if_pos rfl] at closed
    simp only [ending?, close, closed, Option.map_map]
    rfl

/-- A close affects both ends of a loopback, but only one end of a socket. -/
theorem ending?_close (e e' : End) (reason : CloseReason) (l : Link) :
    reason.Marks (l.ending? e) ((l.close e' reason).ending? e) := by
  obtain ⟨pid, p | x | x⟩ := l
  · exact .inr (ending?_close_self e reason ⟨pid, .probe p⟩)
  · exact .inr rfl
  · by_cases he : e = e'
    · subst he
      exact .inr (ending?_close_self e reason ⟨pid, .socket x⟩)
    · have closed := x.standing?_close e' e reason
      rw [if_neg he] at closed
      exact .inl (congrArg (·.map Prod.fst) closed)

end Link

namespace World

variable {E : Type} {w : World E} {o o' : Outlet}

def ending? (o : Outlet) (w : World E) : Option (Option CloseReason) :=
  (w.link? o).bind (·.ending? o.side)

theorem link?_onLink_self (f : Link → Link) (w : World E) :
    (w.onLink o.link f).link? o = (w.link? o).map f := by
  simp [link?, onLink]

theorem ending?_onLink_of_ne {k : Nat} (h : k ≠ o.link) (f : Link → Link) (w : World E) :
    (w.onLink k f).ending? o = w.ending? o := by
  simp [ending?, link?, onLink, h]

theorem ending?_onLink {k : Nat} {f : Link → Link}
    (hf : ∀ l : Link, (f l).ending? o.side = l.ending? o.side) (w : World E) :
    (w.onLink k f).ending? o = w.ending? o := by
  by_cases hk : k = o.link
  · subst hk
    simp only [ending?, link?_onLink_self]
    cases w.link? o with
    | none => rfl
    | some l => exact hf l
  · exact ending?_onLink_of_ne hk f w

theorem ending?_dropEnd (o' : Outlet) (w : World E) : (w.dropEnd o').ending? o = w.ending? o :=
  (ending?_onLink (Link.ending?_dropWriter o.side o'.side) _).trans
    (ending?_onLink (Link.ending?_dropReader o.side o'.side) _)

theorem ending?_close_self (reason : CloseReason) (w : World E) :
    (w.close o reason).ending? o = (w.ending? o).map reason.orElse := by
  simp only [ending?, World.close, link?_onLink_self]
  cases w.link? o with
  | none => rfl
  | some l => exact l.ending?_close_self o.side reason

theorem ending?_close (o o' : Outlet) (reason : CloseReason) (w : World E) :
    reason.Marks (w.ending? o) ((w.close o' reason).ending? o) := by
  by_cases ho : o'.link = o.link
  · simp only [ending?, World.close, ho, link?_onLink_self]
    cases w.link? o with
    | none => exact .inl rfl
    | some l => exact l.ending?_close o.side o'.side reason
  · exact .inl (ending?_onLink_of_ne ho _ w)

/-! ### Closes and dropped halves of a site -/

/-- Closes and drops paths. -/
def shut (reason : CloseReason) (paths : List (PathId × Outlet)) (w : World E) : World E :=
  paths.foldl (fun w (_, outlet) => (w.close outlet reason).dropEnd outlet) w

theorem marks_closeAndDrop (o o' : Outlet) (reason : CloseReason) (w : World E) :
    reason.Marks (w.ending? o) (((w.close o' reason).dropEnd o').ending? o) := by
  rw [ending?_dropEnd]
  exact ending?_close o o' reason w

theorem marks_shut (reason : CloseReason) (paths : List (PathId × Outlet)) (o : Outlet)
    (w : World E) : reason.Marks (w.ending? o) ((w.shut reason paths).ending? o) := by
  induction paths generalizing w with
  | nil => exact .inl rfl
  | cons p paths ih => exact (marks_closeAndDrop o p.2 reason w).trans (ih _)

theorem ending?_shut_of_mem {reason : CloseReason} {paths : List (PathId × Outlet)}
    {p : PathId × Outlet} (hp : p ∈ paths) (w : World E) :
    (w.shut reason paths).ending? p.2 = (w.ending? p.2).map reason.orElse := by
  induction paths generalizing w with
  | nil => cases hp
  | cons q paths ih =>
    rcases List.mem_cons.1 hp with rfl | hp
    · have rest := marks_shut reason paths p.2 ((w.close p.2 reason).dropEnd p.2)
      rw [ending?_dropEnd, ending?_close_self] at rest
      exact rest.of_map
    · exact (ih hp _).trans (marks_closeAndDrop p.2 q.2 reason w).map

theorem ending?_shut_of_ne {reason : CloseReason} {paths : List (PathId × Outlet)}
    (apart : ∀ p ∈ paths, p.2.link ≠ o.link) (w : World E) :
    (w.shut reason paths).ending? o = w.ending? o := by
  induction paths generalizing w with
  | nil => rfl
  | cons p paths ih =>
    obtain ⟨hp, apart'⟩ := List.forall_mem_cons.1 apart
    refine (ih apart' _).trans ?_
    rw [ending?_dropEnd]
    exact ending?_onLink_of_ne hp _ w

theorem ending?_letGo (i : Nat) (w : World E) : (w.letGo i).ending? o = w.ending? o := by
  unfold letGo
  split
  · rfl
  · exact foldl_keeps (p := ending? o) (fun w (p : PathId × Outlet) => ending?_dropEnd p.2 w) _ _

/-! ### Dialling -/

theorem ending?_giveUp (i : Nat) (failure : Failure) (w : World E) :
    (w.giveUp i failure).2.ending? o = w.ending? o := ending?_letGo i w

/-- The failures of a dial. -/
theorem dial_cases {i : Nat} {site : Site E} (here : w.sites[i]? = some site)
    {reached : List (PathId × Outlet)} {failure : Failure} {w' : World E}
    (failed : w.dial i reached = (.error failure, w')) :
    (site.config.targets = [] ∧ failure = .config "at least one path is required" ∧
      w' = (w.giveUp i failure).2) ∨
    (∃ cause, site.session.race.signal.cause = some cause ∧ failure = .ofCause cause ∧
      w' = ((w.shut (.ofCause cause) reached).giveUp i failure).2) ∨
    (failure = .noPathsRemaining ∧ reached = [] ∧ site.paths = []) := by
  simp only [dial, here] at failed
  by_cases nothing : site.config.targets.isEmpty = true
  · rw [if_pos nothing] at failed
    obtain ⟨same, rfl⟩ := Prod.mk.inj failed
    obtain rfl := Except.error.inj same
    exact .inl ⟨List.isEmpty_iff.1 nothing, rfl, rfl⟩
  · rw [if_neg nothing] at failed
    cases hc : site.session.race.signal.cause with
    | some cause =>
      rw [hc] at failed
      obtain ⟨same, rfl⟩ := Prod.mk.inj failed
      obtain rfl := Except.error.inj same
      exact .inr (.inl ⟨cause, rfl, rfl, rfl⟩)
    | none =>
      rw [hc] at failed
      dsimp only at failed
      split_ifs at failed with none_left
      · obtain ⟨same, rfl⟩ := Prod.mk.inj failed
        obtain rfl := Except.error.inj same
        rw [Bool.and_eq_true, List.isEmpty_iff, List.isEmpty_iff] at none_left
        exact .inr (.inr ⟨rfl, none_left⟩)
      · cases failed

def IsClosed (o : Outlet) (w : World E) : Prop := ∃ reason, w.ending? o = some (some reason)

/-- A failed dial leaves the paths that were added before as they are. -/
theorem kept_of_failed_dial {i : Nat} {site : Site E} (here : w.sites[i]? = some site)
    {reached : List (PathId × Outlet)} {failure : Failure} {w' : World E}
    (failed : w.dial i reached = (.error failure, w')) {q : PathId × Outlet} (hq : q ∈ site.paths)
    (own : ∀ p ∈ reached, p.2.link ≠ q.2.link) : w'.ending? q.2 = w.ending? q.2 := by
  rcases dial_cases here failed with ⟨-, -, rfl⟩ | ⟨cause, -, -, rfl⟩ | ⟨-, -, none_added⟩
  · exact ending?_giveUp i failure w
  · exact (ending?_giveUp i failure _).trans (ending?_shut_of_ne own w)
  · rw [none_added] at hq
    cases hq

/-- A failed dial closes the paths it has just reached. -/
theorem closed_of_failed_dial {i : Nat} {site : Site E} (here : w.sites[i]? = some site)
    {stopped : Option Nat} {dials : List (Outlet × Dial)} {failure : Failure} {w' : World E}
    (failed : w.dial i (site.config.reached stopped dials) = (.error failure, w'))
    {p : PathId × Outlet} (hp : p ∈ site.config.reached stopped dials) :
    ∃ cause, site.session.race.signal.cause = some cause ∧
      w'.ending? p.2 = (w.ending? p.2).map (CloseReason.ofCause cause).orElse := by
  rcases dial_cases here failed with ⟨none_configured, -⟩ | ⟨cause, hc, -, rfl⟩ | ⟨-, none_reached, -⟩
  · simp [Config.reached, none_configured] at hp
  · exact ⟨cause, hc, (ending?_giveUp i failure _).trans (ending?_shut_of_mem hp w)⟩
  · rw [none_reached] at hp
    cases hp

/-- Whenever dialling the targets of an attempt fails, for whatever reason: the paths just reached have
been closed, and those added before are as they were. So a failed dial leaves no path open if and only
if none was open before it. -/
theorem failed_dial_closes_reached {i : Nat} {site : Site E} (here : w.sites[i]? = some site)
    (stopped : Option Nat) (dials : List (Outlet × Dial))
    (ends : ∀ p ∈ site.config.reached stopped dials, (w.ending? p.2).isSome = true)
    (own : ∀ p ∈ site.config.reached stopped dials, ∀ q ∈ site.paths, p.2.link ≠ q.2.link)
    {failure : Failure} {w' : World E}
    (failed : w.dial i (site.config.reached stopped dials) = (.error failure, w')) :
    let reached := site.config.reached stopped dials
    (∀ p ∈ reached, w'.IsClosed p.2 ∧ (w.ending? p.2 = some none → ∃ cause,
      site.session.race.signal.cause = some cause ∧ w'.ending? p.2 = some (some (.ofCause cause)))) ∧
    (∀ q ∈ site.paths, w'.ending? q.2 = w.ending? q.2) ∧
    ((∀ p ∈ site.paths ++ reached, w'.IsClosed p.2) ↔ ∀ q ∈ site.paths, w.IsClosed q.2) := by
  intro reached
  have kept (q : PathId × Outlet) (hq : q ∈ site.paths) : w'.ending? q.2 = w.ending? q.2 :=
    kept_of_failed_dial here failed hq fun p hp => own p hp q hq
  have closed (p : PathId × Outlet) (hp : p ∈ reached) : w'.IsClosed p.2 := by
    obtain ⟨cause, -, ending⟩ := closed_of_failed_dial here failed hp
    obtain ⟨before, hb⟩ := Option.isSome_iff_exists.1 (ends p hp)
    rw [hb] at ending
    exact ⟨_, ending⟩
  refine ⟨fun p hp => ⟨closed p hp, fun unclosed => ?_⟩, kept, ?_⟩
  · obtain ⟨cause, hc, ending⟩ := closed_of_failed_dial here failed hp
    rw [unclosed] at ending
    exact ⟨cause, hc, ending⟩
  · constructor
    · intro all q hq
      obtain ⟨reason, hr⟩ := all q (List.mem_append_left _ hq)
      exact ⟨reason, (kept q hq).symm.trans hr⟩
    · intro before p hp
      rcases List.mem_append.1 hp with hp | hp
      · obtain ⟨reason, hr⟩ := before p hp
        exact ⟨reason, (kept p hp).trans hr⟩
      · exact closed p hp

/-- A cancelled attempt with one added path and one target. -/
def plainDial : World Script :=
  let config := (Config.standard .initiator (Octets.zero 32)).addTarget 1 "ws://relay"
  let links := [⟨9, .probe Probe.new⟩, ⟨1, .socket (Socket.withPeer 2048 Watermarks.standard)⟩]
  ((start links [Site.new config fun _ => .error .notNominated] (.cycle [])).addPaths 0
    [(9, ⟨0, .a⟩)]).raise 0 .cancelled |>.2

/-- The target answers before the attempt is cancelled. -/
theorem failed_dial_closes_reached_plain :
    let w := plainDial
    let reached := [(1, (⟨1, .a⟩ : Outlet))]
    let w' := (w.dial 0 reached).2
    (w.sites[0]?.map fun site => site.config.reached (some 20) [(⟨1, .a⟩, .answered 5)]) =
        some reached ∧
      (w.dial 0 reached).1 = .error .cancelled ∧ w'.IsClosed ⟨1, .a⟩ ∧
      w'.ending? ⟨0, .a⟩ = w.ending? ⟨0, .a⟩ := by
  intro w reached w'
  obtain ⟨site, here⟩ : ∃ site, w.sites[0]? = some site := ⟨_, rfl⟩
  have targets : site.config.reached (some 20) [(⟨1, .a⟩, .answered 5)] = reached := by
    obtain rfl := Option.some.inj here
    rfl
  have paths : site.paths = [(9, ⟨0, .a⟩)] := by
    obtain rfl := Option.some.inj here
    rfl
  have failed : w.dial 0 (site.config.reached (some 20) [(⟨1, .a⟩, .answered 5)]) =
      (.error .cancelled, w') := by
    rw [targets]
    rfl
  obtain ⟨closed, kept, -⟩ := failed_dial_closes_reached here (some 20) [(⟨1, .a⟩, .answered 5)]
    (by rw [targets]; intro p hp; obtain rfl := List.mem_singleton.1 hp; rfl)
    (by rw [targets, paths]; simp [reached]) failed
  rw [targets] at closed
  rw [paths] at kept
  have dialled : w.sites[0]?.map (fun site => site.config.reached (some 20)
      [(⟨1, .a⟩, .answered 5)]) = some reached := by rw [here, ← targets]; rfl
  exact ⟨dialled, rfl, (closed _ List.mem_cons_self).1, kept _ List.mem_cons_self⟩

/-- The target refuses, and the added path is left open. -/
theorem added_path_left_open :
    let w := plainDial
    let w' := (w.dial 0 []).2
    (w.sites[0]?.map fun site => (site.config.reached (some 20) [(⟨1, .a⟩, .refused 5 "refused")],
        site.paths)) = some ([], [(9, ⟨0, .a⟩)]) ∧
      (w.dial 0 []).1 = .error .cancelled ∧ w'.ending? ⟨0, .a⟩ = some none := by
  intro w w'
  exact ⟨rfl, rfl, rfl⟩

end World

end PathRace
