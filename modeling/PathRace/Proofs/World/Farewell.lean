import Mathlib
import PathRace.Proofs.Session.Rejection
import PathRace.Proofs.World.Stations
import PathRace.Script

/-! The close message of a path after a rejection. The watcher closes the paths still owned with the
recorded cause, but the writers have been dropped as well, and a sender without a writer closes its path
as `normal`. The close message is that of whichever task runs first (`first_to_close_is_heard`). -/

namespace PathRace

namespace World

variable {E : Type} {w w' : World E} {i j : Nat} {o : Outlet} {pid : PathId} {x : Session E}

/-! ### Tasks that do not affect an outlet -/

theorem standing?_carryOut {attached : List (PathId × Outlet)} {before after : Race}
    (reason : CloseReason) (one : ∀ e ∈ after.closes.drop before.closes.length,
      attached.lookup e.1 = some o → e.2 = reason) (w : World E) :
    (w.carryOut attached before after).standing? o =
      if ∃ e ∈ after.closes.drop before.closes.length, attached.lookup e.1 = some o then
        (w.standing? o).map (Prod.map reason.orElse id)
      else w.standing? o := by
  rw [carryOut_eq, standing?_dropAll, standing?_closeAll one]

theorem outletOf_of_sites (same : w'.sites = w.sites) (j : Nat) (q : PathId) :
    w'.outletOf j q = w.outletOf j q := by
  simp only [outletOf, same]

theorem outletOf_setSession (i : Nat) (y : Session E) (w : World E) (j : Nat) (q : PathId) :
    (w.setSession i y).outletOf j q = w.outletOf j q := by
  unfold setSession
  cases hs : w.sites[i]? with
  | none => rfl
  | some site =>
    simp only [outletOf, sites_carryOut, onSite, List.getElem?_modify]
    by_cases hi : i = j
    · subst hi; simp [hs]
    · simp [hi]

/-- The attempt of site `i` and the outlet `o` are as they were. -/
structure Aside (i : Nat) (o : Outlet) (w w' : World E) : Prop where
  session : w'.session? i = w.session? i
  outlets : ∀ j q, w'.outletOf j q = w.outletOf j q
  standing : w'.standing? o = w.standing? o

theorem Aside.refl (w : World E) : Aside i o w w := ⟨rfl, fun _ _ => rfl, rfl⟩

theorem Aside.trans {w'' : World E} (h : Aside i o w w') (k : Aside i o w' w'') : Aside i o w w'' :=
  ⟨k.session.trans h.session, fun j q => (k.outlets j q).trans (h.outlets j q),
    k.standing.trans h.standing⟩

theorem aside_of_sites (sites : w'.sites = w.sites) (standing : w'.standing? o = w.standing? o) :
    Aside i o w w' :=
  ⟨by simp only [session?, sites], outletOf_of_sites sites, standing⟩

theorem aside_read (o' : Outlet) (w : World E) : Aside i o w (w.read o').2 :=
  aside_of_sites (sites_read ..) (standing?_read ..)

theorem aside_write (o' : Outlet) (write : Writing) (w : World E) :
    Aside i o w (w.write o' write).2 :=
  aside_of_sites (sites_write ..) (standing?_write ..)

theorem aside_setSession (other : j ≠ i) (none_here : ∀ q, w.outletOf j q ≠ some o) (y : Session E) :
    Aside i o w (w.setSession j y) := by
  cases hs : w.sites[j]? with
  | none =>
    have same : w.setSession j y = w := by simp [setSession, hs]
    rw [same]
    exact .refl w
  | some site =>
    have hx := session?_of_site hs
    have away (q : PathId) : site.attached.lookup q ≠ some o := by
      have here := none_here q
      simpa [outletOf, hs] using here
    refine ⟨by rw [session?_setSession hx, if_neg (Ne.symm other)], outletOf_setSession j y w, ?_⟩
    simp only [setSession, hs]
    rw [standing?_carryOut .normal fun e _ known => (away e.1 known).elim,
      if_neg]
    · rfl
    · rintro ⟨e, -, known⟩
      exact away e.1 known

theorem aside_setRace (other : j ≠ i) (none_here : ∀ q, w.outletOf j q ≠ some o) (race : Race) :
    Aside i o w (w.setRace j race) := by
  cases hs : w.sites[j]? with
  | none =>
    have same : w.setRace j race = w := by simp [setRace, hs]
    rw [same]
    exact .refl w
  | some site =>
    have hx := session?_of_site hs
    rw [setRace_of_session? hx]
    exact aside_setSession other none_here _

/-! ### An attempt that has failed -/

/-- The attempt of a site has failed with a protocol error, and one of its paths has outlet `o` to
itself. -/
structure Ended (w : World E) (i : Nat) (pid : PathId) (o : Outlet) (x : Session E) : Prop where
  session : w.session? i = some x
  failed : ∃ failure engine, x.state = .failed failure engine
  heard : x.race.signal.heard = some .protocolError
  owned : x.race.watching = true → pid ∈ x.race.pids
  here : w.outletOf i pid = some o
  alone : ∀ j q, w.outletOf j q = some o → j = i ∧ q = pid

theorem Ended.away (h : w.Ended i pid o x) (other : j ≠ i) (q : PathId) : w.outletOf j q ≠ some o :=
  fun there => other (h.alone j q there).1

theorem Ended.aside (h : w.Ended i pid o x) (k : Aside i o w w') : w'.Ended i pid o x where
  session := k.session.trans h.session
  failed := h.failed
  heard := h.heard
  owned := h.owned
  here := (k.outlets i pid).trans h.here
  alone j q there := h.alone j q ((k.outlets j q).symm.trans there)

theorem Ended.of_sites (h : w.Ended i pid o x) (sites : w'.sites = w.sites) : w'.Ended i pid o x where
  session := by simp only [session?, sites]; exact h.session
  failed := h.failed
  heard := h.heard
  owned := h.owned
  here := (outletOf_of_sites sites i pid).trans h.here
  alone j q there := h.alone j q ((outletOf_of_sites sites j q).symm.trans there)

theorem Ended.setRace (h : w.Ended i pid o x) {race : Race}
    (heard : race.signal.heard = some .protocolError)
    (owned : race.watching = true → pid ∈ race.pids) :
    (w.setRace i race).Ended i pid o { x with race } where
  session := by rw [setRace_of_session? h.session, session?_setSession h.session, if_pos rfl]
  failed := h.failed
  heard := heard
  owned := owned
  here := by rw [setRace_of_session? h.session, outletOf_setSession]; exact h.here
  alone j q there := by
    rw [setRace_of_session? h.session, outletOf_setSession] at there
    exact h.alone j q there

theorem Ended.standing_setRace (h : w.Ended i pid o x) {race : Race} (reason : CloseReason)
    (one : ∀ e ∈ race.closes.drop x.race.closes.length, e.2 = reason) :
    (w.setRace i race).standing? o =
      if pid ∈ (race.closes.drop x.race.closes.length).map Prod.fst then
        (w.standing? o).map (Prod.map reason.orElse id)
      else w.standing? o := by
  obtain ⟨site, hs, rfl⟩ := Option.map_eq_some_iff.1 h.session
  have known (q : PathId) : site.attached.lookup q = some o ↔ q = pid := by
    have lookup (q : PathId) : w.outletOf i q = site.attached.lookup q := by simp [outletOf, hs]
    constructor
    · intro there
      exact (h.alone i q ((lookup q).trans there)).2
    · rintro rfl
      exact (lookup q).symm.trans h.here
  have site_on : (w.onSite i fun s => { s with session := { site.session with race } }).standing? o =
      w.standing? o := rfl
  rw [setRace_of_session? h.session]
  simp only [setSession, hs]
  rw [standing?_carryOut reason fun e he _ => one e he, site_on]
  have same : (∃ e ∈ race.closes.drop site.session.race.closes.length,
      site.attached.lookup e.1 = some o) ↔
      pid ∈ (race.closes.drop site.session.race.closes.length).map Prod.fst := by
    simp only [known, List.mem_map]
  simp only [same]

theorem sent_of_ne {t : Task} (h : t ≠ .sender o) (w : World E) : w.sent o t = [] := if_neg h

/-- The effect of a task on an outlet, and the packets sent from it. -/
inductive InTurn (i : Nat) (o : Outlet) (before : Option CloseReason × Sender) :
    Task → Option CloseReason × Sender → List Packet → Prop
  | watched : InTurn i o before (.watcher i) (before.map CloseReason.protocolError.orElse id) []
  | spoken {after : Option CloseReason × Sender} {sent : List Packet}
      (tells : Socket.Tells before after sent) : InTurn i o before (.sender o) after sent
  | other {t : Task} (other : t ≠ .watcher i) : InTurn i o before t before []

section

variable {before after : Option CloseReason × Sender} {t : Task} {sent : List Packet}

theorem InTurn.reason (h : InTurn i o before t after sent) : after.1 = before.1 ∧ t ≠ .watcher i ∨
    after.1 = some (before.1.getD (if t = .watcher i then .protocolError else .normal)) := by
  cases h with
  | watched => exact .inr (by rw [if_pos rfl]; rfl)
  | spoken tells =>
    rw [if_neg (by simp)]
    exact tells.1.imp (fun same => ⟨by rw [same], by simp⟩) id
  | other other => exact .inl ⟨rfl, other⟩

theorem InTurn.sound (h : InTurn i o before t after sent) (sound : Socket.Sound before) :
    Socket.Sound after := by
  cases h with
  | watched => exact .inr rfl
  | spoken tells =>
    rcases tells.1 with rfl | closed
    · exact sound
    · exact .inr (by rw [closed]; rfl)
  | other => exact sound

theorem InTurn.told (h : InTurn i o before t after sent) (p : Packet) (hp : p ∈ sent)
    (close : p.isClose = true) : ∃ r, after.1 = some r ∧ p = Packet.farewell r := by
  cases h with
  | watched => cases hp
  | spoken tells => exact tells.2 p hp close
  | other => cases hp

end

theorem aside_moveSession [Engine E] (h : w.Ended i pid o x) (j : Nat) : Aside i o w (w.moveSession j) := by
  by_cases other : j = i
  · subst other
    obtain ⟨site, hs, rfl⟩ := Option.map_eq_some_iff.1 h.session
    obtain ⟨failure, engine, state⟩ := h.failed
    simp only [moveSession, hs, state]
    exact .refl w
  · have away := h.away other
    -- The links or the entropy may have changed before the session does.
    have later {w' : World E} (k : Aside i o w w') (y : Session E) : Aside i o w (w'.setSession j y) :=
      k.trans (aside_setSession other (fun q => k.outlets j q ▸ away q) y)
    have fresh (entropy : Entropy) : Aside i o w { w with entropy } := aside_of_sites rfl rfl
    unfold moveSession
    cases w.sites[j]? with
    | none => exact .refl w
    | some site =>
      dsimp only
      split
      · exact later (.refl w) _
      · split_ifs
        · exact later (.refl w) _
        · split
          · exact .refl w
          · exact later (aside_write ..) _
      · exact later (fresh _) _
      · exact .refl w

theorem Ended.sweep (h : w.Ended i pid o x) (watching : x.race.watching = true) :
    ∃ y, (w.setRace i x.race.sweep).Ended i pid o y ∧
      (w.setRace i x.race.sweep).standing? o =
        (w.standing? o).map (Prod.map CloseReason.protocolError.orElse id) := by
  have swept : x.race.sweep = { x.race.closing x.race.pids .protocolError with
      ownership := .released, watching := false } := by
    simp only [Race.sweep, h.heard]
    rfl
  have closes : x.race.sweep.closes.drop x.race.closes.length =
      x.race.pids.map (·, .protocolError) := by
    rw [swept]
    exact List.drop_left
  refine ⟨_, h.setRace (by rw [swept]; exact h.heard) (by simp [swept]), ?_⟩
  have one : ∀ e ∈ x.race.sweep.closes.drop x.race.closes.length, e.2 = CloseReason.protocolError := by
    simp [closes]
  rw [h.standing_setRace .protocolError one, closes, if_pos]
  simpa using h.owned watching

theorem Ended.halt (h : w.Ended i pid o x) (q : PathId) :
    (w.setRace i (x.race.halt q)).Ended i pid o { x with race := x.race.halt q } ∧
      (w.setRace i (x.race.halt q)).standing? o = w.standing? o := by
  have closes : (x.race.halt q).closes.drop x.race.closes.length = [] := List.drop_length
  refine ⟨h.setRace h.heard h.owned, ?_⟩
  rw [h.standing_setRace .normal (by simp [closes]), closes]
  simp

theorem aside_movePump (h : w.Ended i pid o x) {j : Nat} (other : j ≠ i) (q : PathId) :
    Aside i o w (w.movePump j q) := by
  have later {w' : World E} (k : Aside i o w w') (race : Race) : Aside i o w (w'.setRace j race) :=
    k.trans (aside_setRace other (fun q => k.outlets j q ▸ h.away other q) race)
  unfold movePump
  split
  · dsimp only
    split_ifs
    · exact later (aside_read ..) _
    · exact later (.refl w) _
  · exact .refl w

variable [Engine E]

/-- One task after an attempt has failed. -/
theorem Ended.move (h : w.Ended i pid o x) {t : Task} (ht : t ≠ .operation) (can : w.canMove t = true)
    {before : Option CloseReason × Sender} (standing : w.standing? o = some before)
    (sound : Socket.Sound before) :
    ∃ y after, (w.move t).Ended i pid o y ∧ (w.move t).standing? o = some after ∧
      InTurn i o before t after (w.sent o t) := by
  -- only the watcher of the site and the sender of the outlet can change the outlet
  have aside {t : Task} (k : Aside i o w (w.move t)) (sender : t ≠ .sender o) (watcher : t ≠ .watcher i) :
      ∃ y after, (w.move t).Ended i pid o y ∧ (w.move t).standing? o = some after ∧
        InTurn i o before t after (w.sent o t) :=
    ⟨x, before, h.aside k, k.standing.trans standing, by rw [sent_of_ne sender]; exact .other watcher⟩
  have race := race?_of_session? h.session
  cases t with
  | operation => exact absurd rfl ht
  | session j => exact aside (aside_moveSession h j) (by simp) (by simp)
  | background o' =>
    refine aside ?_ (by simp) (by simp)
    unfold World.move
    dsimp only
    split
    · exact (aside_write ..).trans (aside_of_sites rfl rfl)
    · exact .refl w
  | watcher j =>
    by_cases other : j = i
    · subst other
      have watching : x.race.watching = true := by
        have can : x.race.canSweep = true := by simpa [canMove, race] using can
        simp only [Race.canSweep, Bool.and_eq_true] at can
        exact can.1
      obtain ⟨y, ended, closed⟩ := h.sweep watching
      simp only [World.move, race, sent_of_ne (show Task.watcher j ≠ .sender o by simp)]
      exact ⟨y, _, ended, by rw [closed, standing]; rfl, .watched⟩
    · refine aside ?_ (by simp) (by simpa using other)
      unfold World.move
      dsimp only
      split
      · exact .refl w
      · exact aside_setRace other (h.away other) _
  | pump j q =>
    by_cases other : j = i
    · subst other
      have halting : x.race.isHalting = true := by simp [Race.isHalting, h.heard]
      rw [sent_of_ne (show Task.pump j q ≠ .sender o by simp)]
      cases outlet : w.outletOf j q with
      | none => exact ⟨x, before, by simpa [World.move, movePump, race, outlet] using h,
          by simpa [World.move, movePump, race, outlet] using standing, .other (by simp)⟩
      | some o' =>
        obtain ⟨ended, same⟩ := h.halt q
        have moved : w.move (.pump j q) = w.setRace j (x.race.halt q) := by
          simp [World.move, movePump, race, outlet, halting, Race.pump]
        rw [moved]
        exact ⟨_, before, ended, same.trans standing, .other (by simp)⟩
    · exact aside (aside_movePump h other q) (by simp) (by simp)
  | sender o' =>
    by_cases same : o' = o
    · subst same
      obtain ⟨after, closed, tells⟩ := tells_send standing sound
      exact ⟨x, after, h.of_sites rfl, closed, .spoken tells⟩
    · refine aside (aside_of_sites rfl (standing?_send_of_ne same w.now w)) ?_ (by simp)
      simpa using same

/-! ### Any order of turns -/

/-- Whether the watcher of a site moves before an outlet has been closed. -/
def watchedFirst (i : Nat) (o : Outlet) : List Task → World E → Bool
  | [], _ => false
  | t :: ts, w =>
    (w.standing? o).any (·.1.isNone) && (t == .watcher i || watchedFirst i o ts (w.move t))

/-- The reason of the first close of an outlet, made by the watcher or by the sender of the outlet. -/
def firstReason (i : Nat) (o : Outlet) (ts : List Task) (w : World E) : CloseReason :=
  if w.watchedFirst i o ts then .protocolError else .normal

/-- What is sent from an outlet while the tasks move. -/
def sends (o : Outlet) : List Task → World E → List Packet
  | [], _ => []
  | t :: ts, w => w.sent o t ++ sends o ts (w.move t)

theorem firstReason_of_closed {r : CloseReason} {sender : Sender}
    (h : w.standing? o = some (some r, sender)) (ts : List Task) : w.firstReason i o ts = .normal := by
  cases ts with
  | nil => rfl
  | cons t ts => simp [firstReason, watchedFirst, h]

theorem firstReason_watcher {sender : Sender} (h : w.standing? o = some (none, sender)) (ts : List Task) :
    w.firstReason i o (.watcher i :: ts) = .protocolError := by
  simp [firstReason, watchedFirst, h]

theorem firstReason_cons {t : Task} (other : t ≠ .watcher i) {sender : Sender}
    (h : w.standing? o = some (none, sender)) (ts : List Task) :
    w.firstReason i o (t :: ts) = (w.move t).firstReason i o ts := by
  simp [firstReason, watchedFirst, h, other]

/-- The effect of a row of tasks on an outlet: its first close stays, and its close message has that
reason. -/
structure Parted (first : CloseReason) (before after : Option CloseReason × Sender)
    (watched : Prop) (sent : List Packet) : Prop where
  reason : after.1 = none ∧ before.1 = none ∨ after.1 = first.orElse before.1
  closed : watched → after.1.isSome = true
  told : ∀ p ∈ sent, p.isClose = true → ∃ r, after.1 = some r ∧ p = Packet.farewell r

theorem Parted.stays {first : CloseReason} {before after : Option CloseReason × Sender} {watched : Prop}
    {sent : List Packet} (h : Parted first before after watched sent) {r : CloseReason}
    (closed : before.1 = some r) : after.1 = some r := by
  rcases h.reason with ⟨-, open_still⟩ | same
  · simp [closed] at open_still
  · simpa [closed] using same

theorem Ended.moves (h : w.Ended i pid o x) {before : Option CloseReason × Sender}
    (standing : w.standing? o = some before) (sound : Socket.Sound before) {ts : List Task}
    (hs : w.Scheduled ts) :
    ∃ after, (w.moves ts).standing? o = some after ∧
      Parted (w.firstReason i o ts) before after (.watcher i ∈ ts) (w.sends o ts) := by
  induction ts generalizing w x before with
  | nil =>
    refine ⟨before, standing, ?_, by simp, by simp [sends]⟩
    cases before.1 with
    | none => exact .inl ⟨rfl, rfl⟩
    | some r => exact .inr rfl
  | cons t ts ih =>
    obtain ⟨ht, can, hs⟩ := hs
    obtain ⟨y, mid, ended, standing', turn⟩ := h.move ht can standing sound
    obtain ⟨after, final, parted⟩ := ih ended standing' (turn.sound sound) hs
    refine ⟨after, final, ?_, fun mem => ?_, fun p hp close => ?_⟩
    -- Either this turn leaves the outlet open and the first to close it comes later, or this is the one.
    · obtain ⟨closed, sender⟩ := before
      rcases turn.reason with ⟨same, other⟩ | closes
      · cases closed with
        | none =>
          rw [firstReason_cons other standing]
          rcases parted.reason with ⟨none_yet, -⟩ | first
          · exact .inl ⟨none_yet, rfl⟩
          · exact .inr (by rw [first, same])
        | some r => exact .inr (parted.stays same)
      · refine .inr ?_
        rw [parted.stays closes]
        cases closed with
        | none =>
          split_ifs with watcher
          · subst watcher
            rw [firstReason_watcher standing]
            rfl
          · obtain ⟨_, sender'⟩ := mid
            obtain rfl : _ = some _ := closes
            rw [firstReason_cons watcher standing, firstReason_of_closed standing']
            rfl
        | some r => rfl
    · rcases List.mem_cons.1 mem with rfl | later
      · rcases turn.reason with ⟨-, other⟩ | closes
        · exact absurd rfl other
        · rw [parted.stays closes]; rfl
      · exact parted.closed later
    · rcases List.mem_append.1 hp with now | later
      · obtain ⟨r, closed, rfl⟩ := turn.told p now close
        exact ⟨r, parted.stays closed, rfl⟩
      · exact parted.told p later close

/-! ### The first to close -/

/-- The engine of a site rejects something, and the attempt fails. -/
structure Rejects (i : Nat) (w w' : World E) (y : Session E) : Prop where
  quiet : ∃ x, w.session? i = some x ∧ x.race.signal.cause = none
  turn : w' = w.connect i ∨ w.canMove (.session i) = true ∧ w' = w.move (.session i)
  session : w'.session? i = some y
  rejected : y.isRejected = true

omit [Engine E] in
theorem standing?_carryOut_of_table {attached : List (PathId × Outlet)} {before after : Race}
    (table : before.SameTable after) (w : World E) :
    (w.carryOut attached before after).standing? o = w.standing? o := by
  have closes : after.closes.drop before.closes.length = [] := by
    rw [table.closes, List.drop_length]
  rw [standing?_carryOut .normal (by simp [closes]), closes]
  simp

/-- A racing session that is rejected is rejected by what it has just received. -/
theorem moveSession_racing {site : Site E} (hs : w.sites[i]? = some site) {election : Election E}
    {doing : Doing} (state : site.session.state = .racing election doing)
    (quiet : site.session.race.signal.cause = none) :
    w.moveSession i = w ∨ ∃ (w₁ : World E) (z : Session E), w.moveSession i = w₁.setSession i z ∧
      w₁.sites = w.sites ∧ w₁.standing? o = w.standing? o ∧
      (z.isRejected = true → Session.Rejected site.session.race z) := by
  have calm : site.session.isRejected = false := by simp [Session.isRejected, state]
  have never {z : Session E} (h : z.isRejected = false) :
      z.isRejected = true → Session.Rejected site.session.race z := by simp [h]
  unfold moveSession
  simp only [hs, state]
  cases doing with
  | acting todo winner => exact .inr ⟨w, _, rfl, rfl, rfl, never (Session.isRejected_act ..)⟩
  | writing pid write todo winner =>
    dsimp only
    split_ifs
    · exact .inr ⟨w, _, rfl, rfl, rfl, never (Session.isRejected_interrupt calm _)⟩
    · cases w.outletOf i pid with
      | none => exact .inl rfl
      | some outlet =>
        exact .inr ⟨_, _, rfl, sites_write .., standing?_write .., never (Session.isRejected_wrote ..)⟩
  | listening => exact .inr ⟨_, _, rfl, rfl, rfl, Session.rejected_listen quiet calm⟩

/-- A rejection is raised, and no path is closed with it. -/
theorem Rejects.raised (h : Rejects i w w' y) :
    (∃ failure engine, y.state = .failed failure engine) ∧
      y.race.signal.heard = some .protocolError ∧ w'.standing? o = w.standing? o := by
  obtain ⟨x, hx, quiet⟩ := h.quiet
  obtain ⟨site, hs, rfl⟩ := Option.map_eq_some_iff.1 hx
  have session := h.session
  have rejected := h.rejected
  rcases h.turn with rfl | ⟨can, rfl⟩
  · obtain rfl := Option.some.inj ((session?_connect_of_site hs).symm.trans session)
    obtain ⟨entered, r⟩ := Session.rejected_connect quiet rejected
    refine ⟨r.failed, r.heard, ?_⟩
    unfold connect
    simp only [hs, entered]
    exact standing?_carryOut_of_table r.table _
  · obtain ⟨election, doing, state⟩ : ∃ election doing, site.session.state = .racing election doing := by
      cases state : site.session.state with
      | racing election doing => exact ⟨election, doing, rfl⟩
      | _ => simp [canMove, canMoveSession, hs, state] at can
    change (w.moveSession i).session? i = some y at session
    change _ ∧ _ ∧ (w.moveSession i).standing? o = _
    rcases moveSession_racing (o := o) hs state quiet with same | ⟨w₁, z, eq, sites, standing, lost⟩
    · rw [same] at session
      obtain rfl := Option.some.inj (hx.symm.trans session)
      simp [Session.isRejected, state] at rejected
    · have hs₁ : w₁.sites[i]? = some site := by rw [sites, hs]
      have hx₁ : w₁.session? i = some site.session := by simp [session?, hs₁]
      rw [eq, session?_setSession hx₁, if_pos rfl] at session
      obtain rfl := Option.some.inj session
      have r := lost rejected
      refine ⟨r.failed, r.heard, ?_⟩
      rw [eq]
      simp only [setSession, hs₁]
      exact (standing?_carryOut_of_table r.table _).trans standing

/-- The socket of an outlet takes a packet at once, and the other side has not left. -/
def isAudible (o : Outlet) (w : World E) : Bool :=
  match w.links[o.link]? with
  | some ⟨_, .socket x⟩ => !x.narrow && (x.station? o.side).any fun s => !x.isMute o.side s
  | _ => false

omit [Engine E] in
theorem sent_of_closed {r : CloseReason} (closed : w.standing? o = some (some r, .running))
    (audible : w.isAudible o = true) : w.sent o (.sender o) = [Packet.farewell r] := by
  obtain ⟨l, hl, standing⟩ := Option.bind_eq_some_iff.1 closed
  simp only [isAudible, hl] at audible
  obtain ⟨q, _ | _ | x⟩ := l
  · cases standing
  · cases standing
  · obtain ⟨s, hs, he⟩ := Option.map_eq_some_iff.1 (show x.standing? o.side = _ from standing)
    simp only [hs, Option.any_some, Bool.and_eq_true, Bool.not_eq_true'] at audible
    have told := Socket.sent_of_closed hs (congrArg Prod.snd he) (congrArg Prod.fst he) audible.2
      audible.1 w.now
    simp only [sent, if_true, hl, Option.elim_some]
    exact told

/-- After an engine rejects something and its attempt fails, the tasks move in any order. The close
message of a path that was still owned then has the reason of the first close: `protocolError` if the
watcher closes it, which knows the cause, and `normal` if the path's own sender does, which only finds
its writer dropped. -/
theorem first_to_close_is_heard {y : Session E} (h : Rejects i w w' y) (owned : pid ∈ y.race.pids)
    (here : w'.outletOf i pid = some o) (alone : ∀ j q, w'.outletOf j q = some o → j = i ∧ q = pid)
    (running : w.standing? o = some (none, .running)) {ts : List Task} (hs : w'.Scheduled ts) :
    ∃ closed sender, (w'.moves ts).standing? o = some (closed, sender) ∧
      (closed = none ∨ closed = some (w'.firstReason i o ts)) ∧
      (.watcher i ∈ ts → closed = some (w'.firstReason i o ts)) ∧
      (∀ p ∈ w'.sends o ts, p.isClose = true → p = Packet.farewell (w'.firstReason i o ts)) ∧
      (closed.isSome = true → sender = .running → (w'.moves ts).isAudible o = true →
        (w'.moves ts).sent o (.sender o) = [Packet.farewell (w'.firstReason i o ts)]) := by
  obtain ⟨failed, heard, same⟩ := h.raised (o := o)
  have ended : w'.Ended i pid o y := ⟨h.session, failed, heard, fun _ => owned, here, alone⟩
  obtain ⟨⟨closed, sender⟩, final, parted⟩ := ended.moves (same.trans running) (.inl rfl) hs
  have once (known : closed.isSome = true) : closed = some (w'.firstReason i o ts) := by
    rcases parted.reason with ⟨none_yet, -⟩ | first
    · obtain rfl : closed = none := none_yet
      cases known
    · exact first
  refine ⟨closed, sender, final, ?_, fun watched => once (parted.closed watched), ?_, ?_⟩
  · exact parted.reason.imp And.left id
  · intro p hp close
    obtain ⟨r, known, rfl⟩ := parted.told p hp close
    obtain rfl : closed = some r := known
    obtain rfl := Option.some.inj (once rfl)
    rfl
  · intro known rest audible
    rw [once known, rest] at final
    exact sent_of_closed final audible

/-! ### A rejection with one path -/

/-- An engine that rejects every chunk. -/
def plainRejecter : Script where
  isNominator := true
  frames := .ok []
  rules := [⟨none, none, some .challengeMismatch, []⟩]
  nominations := []
  creation := none
  queue := []
  nominated := none
  calls := []

/-- The peer on the only path has sent a chunk. -/
def plainStart : World Script where
  links := [⟨5, .socket { Socket.withPeer 65536 Watermarks.standard with toNear := [.binary [1]] }⟩]
  sites := [{
    config := Config.standard .initiator (Octets.zero 32)
    make := fun _ => .ok plainRejecter
    setup := none
    paths := [(5, ⟨0, .a⟩)]
    attached := []
    session := Session.idle
    held := .whole }]
  background := []
  operation := none
  answer := none
  now := 0
  entropy := .cycle []

/-- The chunk is in the slot, and the next move of the session takes it. -/
def plainBeforeRejection : World Script := (plainStart.connect 0).moves [.session 0, .pump 0 5, .pump 0 5]

theorem rejects_plainBeforeRejection :
    ∃ y, Rejects 0 plainBeforeRejection (plainBeforeRejection.move (.session 0)) y ∧
      5 ∈ y.race.pids ∧ y.race.signal.cause = some .protocolError := by
  have quiet : (plainBeforeRejection.session? 0).any (·.race.signal.cause.isNone) = true := by cbv
  have lost : ((plainBeforeRejection.move (.session 0)).session? 0).any (fun y => y.isRejected &&
      y.race.pids.contains 5 && y.race.signal.cause == some .protocolError) = true := by cbv
  obtain ⟨x, hx, none_yet⟩ := Option.any_eq_true _ _ |>.1 quiet
  obtain ⟨y, hy, h⟩ := Option.any_eq_true _ _ |>.1 lost
  simp only [Bool.and_eq_true, List.contains_iff_mem, beq_iff_eq] at h
  exact ⟨y, ⟨⟨x, hx, by simpa using none_yet⟩, .inr ⟨by cbv, rfl⟩, hy, h.1.1⟩, h.1.2, h.2⟩

theorem outletOf_plainBeforeRejection (j : Nat) (q : PathId) :
    (plainBeforeRejection.move (.session 0)).outletOf j q =
      ([[(5, ⟨0, .a⟩)]] : List (List (PathId × Outlet)))[j]?.bind (·.lookup q) := by
  have attached :
      (plainBeforeRejection.move (.session 0)).sites.map (·.attached) = [[(5, ⟨0, .a⟩)]] := by cbv
  rw [outletOf, ← attached, List.getElem?_map]
  cases (plainBeforeRejection.move (.session 0)).sites[j]? <;> rfl

/-- The watcher moves first, and the close message has the protocol error. -/
theorem first_to_close_is_heard_plain :
    let w := plainBeforeRejection.move (.session 0)
    let ts := [.watcher 0, .sender ⟨0, .a⟩]
    (∃ y, Rejects 0 plainBeforeRejection w y ∧ 5 ∈ y.race.pids) ∧ w.Scheduled ts ∧
      ((w.moves ts).standing? ⟨0, .a⟩).map Prod.fst = some (some .protocolError) ∧
      (∀ p ∈ w.sends ⟨0, .a⟩ ts, p.isClose = true → p = Packet.farewell .protocolError) ∧
      w.sends ⟨0, .a⟩ ts = [Packet.farewell .protocolError] := by
  have alone (j : Nat) (q : PathId)
      (there : (plainBeforeRejection.move (.session 0)).outletOf j q = some ⟨0, .a⟩) : j = 0 ∧ q = 5 := by
    rw [outletOf_plainBeforeRejection] at there
    rcases j with _ | j
    · refine ⟨rfl, by_contra fun other => ?_⟩
      have unequal : (q == 5) = false := beq_false_of_ne other
      simp [List.lookup_cons, unequal] at there
    · simp at there
  have here : (plainBeforeRejection.move (.session 0)).outletOf 0 5 = some ⟨0, .a⟩ := by
    rw [outletOf_plainBeforeRejection]; rfl
  have scheduled :
      (plainBeforeRejection.move (.session 0)).Scheduled [.watcher 0, .sender ⟨0, .a⟩] :=
    ⟨by simp, by cbv, by simp, by cbv, trivial⟩
  have running : plainBeforeRejection.standing? ⟨0, .a⟩ = some (none, .running) := by cbv
  have first : (plainBeforeRejection.move (.session 0)).firstReason 0 ⟨0, .a⟩
      [.watcher 0, .sender ⟨0, .a⟩] = .protocolError := by cbv
  obtain ⟨y, rejects, owned, -⟩ := rejects_plainBeforeRejection
  obtain ⟨closed, sender, final, -, watched, told, -⟩ :=
    first_to_close_is_heard rejects owned here alone running scheduled
  rw [first] at watched told
  refine ⟨⟨y, rejects, owned⟩, scheduled, ?_, told, by cbv⟩
  rw [final, watched List.mem_cons_self]
  rfl

/-- The sender moves first, and the close message is an ordinary one. -/
theorem unheard_plainBeforeRejection :
    let w := plainBeforeRejection.move (.session 0)
    let ts := [.sender ⟨0, .a⟩, .watcher 0]
    (∃ y, Rejects 0 plainBeforeRejection w y ∧ 5 ∈ y.race.pids ∧
        y.race.signal.cause = some .protocolError) ∧
      w.outletOf 0 5 = some ⟨0, .a⟩ ∧ w.Scheduled ts ∧
      w.sends ⟨0, .a⟩ ts = [Packet.farewell .normal] ∧ CloseReason.normal.code = 1000 ∧
      CloseReason.protocolError.code = 4000 :=
  ⟨rejects_plainBeforeRejection, by cbv, ⟨by simp, by cbv, by simp, by cbv, trivial⟩,
    by cbv, by cbv, by cbv⟩

end World

end PathRace
