import PathRace.Proofs.Session.Attempt
import PathRace.World

/-! A task of a world makes at most one move of an attempt (`follows_move`), so what holds of every
attempt holds of every site. -/

namespace PathRace

namespace World

variable {E : Type}

def session? (i : Nat) (w : World E) : Option (Session E) := w.sites[i]?.map (·.session)

theorem session?_of_site {i : Nat} {w : World E} {site : Site E} (hs : w.sites[i]? = some site) :
    w.session? i = some site.session := by
  rw [session?, hs]
  rfl

theorem race?_of_session? {i : Nat} {w : World E} {x : Session E} (hx : w.session? i = some x) :
    w.race? i = some x.race := by
  obtain ⟨site, hs, rfl⟩ := Option.map_eq_some_iff.1 hx
  rw [race?, hs]
  rfl

theorem foldl_keeps {α β : Type} {p : World E → β} {f : World E → α → World E}
    (hf : ∀ w a, p (f w a) = p w) (l : List α) (w : World E) : p (l.foldl f w) = p w := by
  induction l generalizing w with
  | nil => rfl
  | cons a l ih => rw [List.foldl_cons, ih, hf]

/-- Carrying out what a race has closed and released changes only the links. -/
theorem carryOut_keeps {β : Type} {p : World E → β} (hp : ∀ i f w, p (w.onLink i f) = p w)
    (attached : List (PathId × Outlet)) (before after : Race) (w : World E) :
    p (w.carryOut attached before after) = p w := by
  refine (foldl_keeps (p := p) (fun w e => ?_) _ _).trans (foldl_keeps (p := p) (fun w e => ?_) _ _)
  · dsimp only
    split_ifs
    · exact (hp ..).trans (hp ..)
    · exact hp ..
    · exact hp ..
    · rfl
  · dsimp only
    split
    · exact hp ..
    · rfl

theorem sites_carryOut (attached : List (PathId × Outlet)) (before after : Race) (w : World E) :
    (w.carryOut attached before after).sites = w.sites :=
  carryOut_keeps (p := World.sites) (fun _ _ _ => rfl) attached before after w

theorem sites_turnAway (paths : List (PathId × Outlet)) (w : World E) :
    (w.turnAway paths).sites = w.sites := by
  unfold turnAway
  exact foldl_keeps (p := World.sites) (fun _ _ => by rfl) paths w

theorem session?_setSession {i : Nat} {w : World E} {x : Session E} (h : w.session? i = some x)
    (y : Session E) (j : Nat) :
    (w.setSession i y).session? j = if j = i then some y else w.session? j := by
  obtain ⟨site, hs, rfl⟩ := Option.map_eq_some_iff.1 h
  simp only [setSession, hs, session?, sites_carryOut, onSite, List.getElem?_modify]
  by_cases hj : j = i
  · subst hj; simp [hs]
  · simp [hj, Ne.symm hj]

theorem setRace_of_session? {i : Nat} {w : World E} {x : Session E} (h : w.session? i = some x)
    (race : Race) : w.setRace i race = w.setSession i { x with race } := by
  obtain ⟨site, hs, rfl⟩ := Option.map_eq_some_iff.1 h
  simp only [setRace, hs]

@[simp] theorem sites_write (outlet : Outlet) (write : Writing) (w : World E) :
    (w.write outlet write).2.sites = w.sites := by
  unfold World.write
  split <;> rfl

@[simp] theorem sites_read (outlet : Outlet) (w : World E) : (w.read outlet).2.sites = w.sites := by
  unfold World.read
  split <;> rfl

variable [Engine E]

/-- The attempt of a site is a run of `a` with at most one more move. -/
def Follows (make : Setup → Except EngineFault E) (config : Config) (pids : List PathId) (i : Nat)
    (a : Attempt E) (w : World E) : Prop :=
  w.session? i = some a.session ∨ ∃ m, w.session? i = some (a.after make config pids m).session

variable {make : Setup → Except EngineFault E} {config : Config} {pids : List PathId} {i : Nat}
  {a : Attempt E} {w : World E} {y : Session E}

theorem follows_setSession (h : w.session? i = some a.session) {j : Nat} {x : Session E}
    (hx : w.session? j = some x) (m : Attempt.Move)
    (hm : x = a.session → y = (a.after make config pids m).session) :
    (w.setSession j y).Follows make config pids i a := by
  by_cases hj : i = j
  · subst hj
    rw [Follows, session?_setSession hx, if_pos rfl]
    exact .inr ⟨m, congrArg some (hm (Option.some.inj (hx.symm.trans h)))⟩
  · rw [Follows, session?_setSession hx, if_neg hj]
    exact .inl h

theorem follows_moveSession (h : w.session? i = some a.session) (j : Nat) :
    (w.moveSession j).Follows make config pids i a := by
  unfold moveSession
  cases hj : w.sites[j]? with
  | none => exact .inl h
  | some site =>
    have hx : w.session? j = some site.session := by simp [session?, hj]
    dsimp only
    split
    · rename_i election todo winner hs
      refine follows_setSession h hx (.proceed (.inl (.ok ())) 0 w.entropy) fun he => ?_
      simp [Attempt.after, ← he, Session.proceed, hs]
    · rename_i election pid write todo winner hs
      by_cases hh : site.session.race.isHalting = true
      · rw [if_pos hh]
        refine follows_setSession h hx (.proceed (.inl (.ok ())) 0 w.entropy) fun he => ?_
        simp [Attempt.after, ← he, Session.proceed, hs, hh]
      · rw [if_neg hh]
        cases w.outletOf j pid with
        | none => exact .inl h
        | some outlet =>
          have same (k : Nat) : (w.write outlet write).2.session? k = w.session? k := by
            simp [session?]
          refine follows_setSession ((same i).trans h) ((same j).trans hx)
            (.proceed (w.write outlet write).1 0 w.entropy) fun he => ?_
          simp [Attempt.after, ← he, Session.proceed, hs, hh]
    · rename_i election hs
      let w' : World E := { w with entropy := (site.session.listen election w.now w.entropy).2 }
      have h' : w'.session? i = some a.session := h
      refine follows_setSession h' hx (.proceed (.inl (.ok ())) w.now w.entropy) fun he => ?_
      simp [Attempt.after, ← he, Session.proceed, hs]
    · exact .inl h

theorem canPump_of_not_reading {race : Race} {pid : PathId} {readable : Bool}
    (hc : race.canPump pid readable = true)
    (hr : (!race.isHalting && race.reading.contains pid) = false) :
    race.canPump pid false = true := by
  simp only [Race.canPump, Race.holdsReader] at hc ⊢
  cases hh : race.isHalting <;> cases hp : race.reading.contains pid <;> simp_all

theorem after_pump_of_reading {race : Race} {pid : PathId}
    (hr : (!race.isHalting && race.reading.contains pid) = true) (item : Option Inbound) :
    race.after (.pump pid item) = race.pump pid item := by
  obtain ⟨hh, hp⟩ : race.isHalting = false ∧ pid ∈ race.reading := by simpa using hr
  cases item with
  | none => simp [Race.after, Race.pump, hh, hp]
  | some item => simp [Race.after, Race.canPump, hh, hp]

theorem follows_movePump (h : w.session? i = some a.session) {j : Nat} {pid : PathId}
    (hm : w.canMove (.pump j pid) = true) : (w.movePump j pid).Follows make config pids i a := by
  unfold movePump
  split
  · rename_i race outlet hrace houtlet
    obtain ⟨site, hs, rfl⟩ := Option.map_eq_some_iff.1 hrace
    have hx : w.session? j = some site.session := by simp [session?, hs]
    have hc : site.session.race.canPump pid (w.canRead outlet) = true := by
      simpa [canMove, hrace, houtlet] using hm
    by_cases hr : (!site.session.race.isHalting && site.session.race.reading.contains pid) = true
    · rw [if_pos hr]
      have same (k : Nat) : (w.read outlet).2.session? k = w.session? k := by simp [session?]
      have hx' := (same j).trans hx
      dsimp only
      rw [setRace_of_session? hx']
      refine follows_setSession ((same i).trans h) hx' (.pump pid (w.read outlet).1) fun he => ?_
      simp only [Attempt.after, Attempt.onRace, ← he, after_pump_of_reading hr]
    · rw [if_neg hr, setRace_of_session? hx]
      have hp := canPump_of_not_reading hc (by simpa using hr)
      refine follows_setSession h hx (.pump pid none) fun he => ?_
      simp [Attempt.after, Attempt.onRace, Race.after, ← he, hp]
  · exact .inl h

/-- A task makes at most one move of the attempt of a site. -/
theorem follows_move (h : w.session? i = some a.session) {t : Task} (hm : w.canMove t = true)
    (ht : t ≠ .operation) : (w.move t).Follows make config pids i a := by
  cases t with
  | operation => exact (ht rfl).elim
  | session j => exact follows_moveSession h j
  | pump j pid => exact follows_movePump h hm
  | sender => exact .inl h
  | background outlet =>
    simp only [move]
    split
    · refine .inl (Eq.trans ?_ h)
      simp [session?]
    · exact .inl h
  | watcher j =>
    simp only [move]
    split
    · exact .inl h
    · rename_i race hrace
      obtain ⟨site, hs, rfl⟩ := Option.map_eq_some_iff.1 hrace
      have hx : w.session? j = some site.session := by simp [session?, hs]
      have hc : site.session.race.canSweep = true := by simpa [canMove, hrace] using hm
      rw [setRace_of_session? hx]
      refine follows_setSession h hx .sweep fun he => ?_
      simp [Attempt.after, Attempt.onRace, Race.after, ← he, hc]

theorem session?_connect_of_site {site : Site E} (hs : w.sites[i]? = some site) :
    (w.connect i).session? i =
      some (site.session.connect site.make site.config (site.paths.map Prod.fst) w.now w.entropy).1 := by
  unfold connect
  simp only [hs]
  split
  · simp [session?, sites_turnAway, onSite, hs]
  · simp [session?, sites_carryOut, onSite, hs]

theorem session?_connect {site : Site E} (hs : w.sites[i]? = some site)
    (hx : site.session = a.session) (idle : a.session.isIdle = true) :
    (w.connect i).session? i = some (a.after site.make site.config (site.paths.map Prod.fst)
      (.connect w.now w.entropy)).session := by
  have after : (a.after site.make site.config (site.paths.map Prod.fst)
      (.connect w.now w.entropy)).session =
        (site.session.connect site.make site.config (site.paths.map Prod.fst) w.now w.entropy).1 := by
    simp [Attempt.after, idle, hx]
  rw [after, session?_connect_of_site hs]

/-- A list of tasks each of which can move at its turn. -/
def Scheduled : List Task → World E → Prop
  | [], _ => True
  | t :: ts, w => t ≠ .operation ∧ w.canMove t = true ∧ Scheduled ts (w.move t)

def moves (ts : List Task) (w : World E) : World E := ts.foldl (fun w t => w.move t) w

/-- Whatever tasks do to the attempt of a site is a run of the attempt. -/
theorem session?_moves (ts : List Task) (hs : w.Scheduled ts) (h : w.session? i = some a.session) :
    ∃ ms, (w.moves ts).session? i = some (a.run make config pids ms).session := by
  induction ts generalizing w a with
  | nil => exact ⟨[], h⟩
  | cons t ts ih =>
    obtain ⟨ht, hm, hs⟩ := hs
    have step : (w.move t).Follows make config pids i a := follows_move h hm ht
    rcases step with same | ⟨m, moved⟩
    · exact ih hs same
    · obtain ⟨ms, hr⟩ := ih hs moved
      exact ⟨m :: ms, hr⟩

end World

end PathRace
