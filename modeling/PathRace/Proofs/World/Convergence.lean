import Mathlib
import PathRace.Proofs.World.Arena

/-! Two devices connected by in-process pairs, with no interference. Their tasks and the clock move in
any order; neither attempt ever fails, and when nothing can move any more both have won with the same
path and hash (`Arena.converges`). -/

namespace PathRace

/-- What can happen without an operation from outside. -/
inductive Act
  | connect (site : Nat)
  | move (task : Task)
  | tick
  deriving DecidableEq

namespace World

variable {E : Type}

/-- A site is connected once, and a task moves only if it can. -/
def Can (w : World E) : Act → Prop
  | .connect i => (w.session? i).any Session.isIdle = true
  | .move t => w.canMove t = true
  | .tick => True

/-- No task can move, now or later, and every site has been connected. -/
def Finished (w : World E) : Prop :=
  (∀ i, ¬ w.Can (.connect i)) ∧ ∀ n, isQuiet { w with now := w.now + n } = true

/-- The result of the attempt of a site. -/
def result? (i : Nat) (w : World E) : Option (Except Failure (PathId × PathHash)) :=
  (w.session? i).bind Session.result?

theorem mem_tasks_session {w : World E} {i : Nat} {site : Site E} (h : w.sites[i]? = some site) :
    .session i ∈ w.tasks := by
  obtain ⟨hi, -⟩ := List.getElem?_eq_some_iff.1 h
  simp [tasks, hi]

theorem mem_tasks_pump {w : World E} {i : Nat} {site : Site E} (h : w.sites[i]? = some site)
    {pid : PathId} (hp : pid ∈ site.attached.map Prod.fst) : .pump i pid ∈ w.tasks := by
  obtain ⟨hi, rfl⟩ := List.getElem?_eq_some_iff.1 h
  obtain ⟨⟨p, o⟩, ho, rfl⟩ := List.mem_map.1 hp
  have known : (w.sites[i], i) ∈ w.sites.zipIdx :=
    List.mem_zipIdx_iff_getElem?.2 (List.getElem?_eq_getElem hi)
  simp only [tasks, List.mem_append, List.mem_cons, List.mem_flatMap]
  exact .inl (.inr ⟨_, known, List.mem_map.2 ⟨_, ho, rfl⟩⟩)

theorem Finished.still {w : World E} (h : w.Finished) {t : Task} (known : t ∈ w.tasks) (n : Nat) :
    canMove t { w with now := w.now + n } = false := by
  simpa using List.all_eq_true.1 (h.2 n) t known

/-- A condition that can be evaluated and implies `Finished`: every attempt has returned, every link is a
loopback, and no task can move. -/
def isSettled (w : World E) : Bool :=
  w.operation.isNone && w.background.isEmpty && w.sites.all (·.session.result?.isSome) &&
    (List.range w.links.length).all (fun k => (w.loop? k).isSome) && w.isQuiet

theorem finished_of_isSettled {w : World E} (settled : w.isSettled = true) : w.Finished := by
  simp only [isSettled, Bool.and_eq_true, Option.isNone_iff_eq_none, List.isEmpty_iff,
    List.all_eq_true, List.mem_range] at settled
  obtain ⟨⟨⟨⟨unasked, alone⟩, returned⟩, placed⟩, quiet⟩ := settled
  refine ⟨fun i can => ?_, fun n => List.all_eq_true.2 fun t known => ?_⟩
  · have can : (w.session? i).any Session.isIdle = true := can
    cases hs : w.sites[i]? with
    | none => simp [session?, hs] at can
    | some site =>
      have result := returned site (List.mem_of_getElem? hs)
      cases state : site.session.state <;>
        simp [session?, hs, Session.isIdle, Session.result?, state] at can result
  · have still := List.all_eq_true.1 quiet t known
    cases t with
    | operation => simp [canMove, canMoveOperation, unasked]
    | background o => simp [canMove, alone]
    | watcher | pump => exact still
    | session i =>
      cases hs : w.sites[i]? with
      | none => simp [canMove, canMoveSession, hs]
      | some site =>
        have result := returned site (List.mem_of_getElem? hs)
        cases state : site.session.state <;>
          simp [canMove, canMoveSession, hs, Session.result?, state] at result ⊢
    | sender o =>
      cases hl : w.links[o.link]? with
      | none => simp [canMove, link?, hl]
      | some link =>
        obtain ⟨hi, -⟩ := List.getElem?_eq_some_iff.1 hl
        obtain ⟨l, hl⟩ := Option.isSome_iff_exists.1 (placed o.link hi)
        obtain ⟨pid, hk⟩ := link_of_loop? hl
        simp [canMove, link?, hk, Link.canSend]

instance decidableCan (w : World E) : (x : Act) → Decidable (w.Can x)
  | .connect i => inferInstanceAs (Decidable ((w.session? i).any Session.isIdle = true))
  | .move t => inferInstanceAs (Decidable (w.canMove t = true))
  | .tick => .isTrue trivial

variable [Engine E]

def act (w : World E) : Act → World E
  | .connect i => w.connect i
  | .move t => w.move t
  | .tick => { w with now := w.now + 1 }

/-- A list of acts each of which can happen at its turn. -/
def Course : List Act → World E → Prop
  | [], _ => True
  | x :: xs, w => w.Can x ∧ Course xs (w.act x)

def acts (xs : List Act) (w : World E) : World E := xs.foldl act w

instance decidableCourse : (xs : List Act) → (w : World E) → Decidable (w.Course xs)
  | [], _ => .isTrue trivial
  | x :: xs, w =>
    have := decidableCourse xs (w.act x)
    inferInstanceAs (Decidable (w.Can x ∧ (w.act x).Course xs))

end World

namespace Arena

variable {S : Suite} {a : Arena} {w : World (Exchange S)} {d : Duel S} {v : Relay S} {r : Role}

/-! ### Acts -/

theorem Shows.act (agrees : S.Agrees)
    (honest : Duel.Honest a.ak a.nominator a.pids a.config a.order d v) (h : a.Shows w d) {x : Act}
    (can : w.Can x) : a.Follows d (w.act x) := by
  have seated {i : Nat} {α : Type} {f : Site (Exchange S) → α} {p : α → Bool}
      (hs : (w.sites[i]?.map f).any p = true) : ∃ r, i = a.seat r := by
    cases hi : w.sites[i]? with
    | none => simp [hi] at hs
    | some site => exact h.others i site hi
  cases x with
  | tick => exact .inl (h.meanwhile (w.now + 1) w.entropy)
  | connect i =>
    obtain ⟨r, rfl⟩ := seated can
    obtain ⟨site, hs, seats⟩ := h.seats r
    refine h.connect agrees honest ?_
    simpa [World.Can, World.session?, hs, seats.session] using can
  | move t =>
    have can : w.canMove t = true := can
    cases t with
    | operation => simp [World.canMove, World.canMoveOperation, h.unasked] at can
    | background o => simp [World.canMove, h.alone] at can
    | session i =>
      cases hi : w.sites[i]? with
      | none => simp [World.canMove, World.canMoveSession, hi] at can
      | some site =>
        obtain ⟨r, rfl⟩ := h.others i site hi
        exact h.session agrees honest can
    | watcher i =>
      obtain ⟨r, rfl⟩ := seated can
      have quiet : (d.session r).race.isHalting = false := (honest.side r).running
      simp [World.canMove, h.race?, Race.canSweep, Duel.race, quiet] at can
    | pump i pid =>
      obtain ⟨r, rfl⟩ := seated can
      exact h.pump agrees honest can
    | sender o =>
      exact .inl (h.kept (World.relinked_onLink ..) fun k l hk => World.loop?_send o w.now hk)

/-! ### The end -/

theorem Shows.session_still (h : a.Shows w d) (finished : w.Finished) (r : Role) (n : Nat) :
    World.canMoveSession (a.seat r) { w with now := w.now + n } = false := by
  obtain ⟨site, hs, -⟩ := h.seats r
  exact finished.still (World.mem_tasks_session hs) n

theorem Shows.pump_still (h : a.Shows w d) (finished : w.Finished) {pid : PathId} (hp : pid ∈ a.pids)
    (busy : (d.session r).isIdle = false) :
    (d.race r).canPump pid (w.canRead (a.outlet r pid)) = false := by
  obtain ⟨site, hs, seats⟩ := h.seats r
  have attached : pid ∈ site.attached.map Prod.fst := by
    rw [seats.attached busy, a.map_fst_paths]
    exact a.mem_order.2 hp
  have still := finished.still (World.mem_tasks_pump hs attached) 0
  simpa [World.canMove, h.race?, h.outletOf busy hp] using still

theorem Shows.resting (h : a.Shows w d) (finished : w.Finished) : d.Resting a.pids := by
  have session (r : Role) := h.session_still finished r
  have begun (r : Role) : (d.session r).isIdle = false := by
    obtain ⟨site, hs, seats⟩ := h.seats r
    simpa [World.Can, World.session?, hs, seats.session] using finished.1 (a.seat r)
  constructor
  case begun => exact begun
  case acts =>
    intro r e todo winner state
    obtain ⟨site, hs, seats⟩ := h.seats r
    simpa [World.canMoveSession, hs, seats.session, state] using session r 0
  case writes =>
    -- a write that cannot go on finds the link open and full, so its queue is not empty
    intro r e write todo winner pid hp state
    obtain ⟨site, hs, seats⟩ := h.seats r
    obtain ⟨l, hl, carries⟩ := h.links pid hp
    have later := h.meanwhile (w.now + 0) w.entropy
    have still := session r 0
    simp only [World.canMoveSession, hs, seats.session, state, World.canGoOn, later.race?,
      later.outletOf (begun r) hp, Option.any_some, Bool.or_eq_false_iff] at still
    have hl : World.loop? (a.outlet r pid).link { w with now := w.now + 0 } = some l := hl
    rw [World.canWrite_of_loop? hl] at still
    simp only [Loopback.canWrite, Bool.or_eq_false_iff] at still
    obtain ⟨-, ⟨spared, -⟩, full⟩ := still
    have spared : ¬ d.Closed pid := by rw [← carries.closed, spared]; exact Bool.false_ne_true
    refine ⟨spared, fun empty => ?_⟩
    have inward : l.outward (a.outlet r pid).side = ⟨d.queue r.peer pid, true, true⟩ := by
      rw [Loopback.outward, ← a.side_peer, carries.inward spared]
    simp [Loopback.hasRoom, inward, empty, carries.capacity] at full
  case listens =>
    -- a deadline would come due as the clock goes on
    intro r e state
    obtain ⟨site, hs, seats⟩ := h.seats r
    have still (n : Nat) := session r n
    simp only [World.canMoveSession, hs, seats.session, state, Bool.or_eq_false_iff] at still
    constructor
    · have waits := (still 0).1
      simp only [Race.canReceive, Bool.or_eq_false_iff] at waits
      simpa [Duel.race] using waits.1.2
    · cases due : e.deadline with
      | none => rfl
      | some t =>
        have never := (still t).2
        simp [due] at never
  case reads =>
    intro r pid hp reading spared
    obtain ⟨l, hl, carries⟩ := h.links pid hp
    have still := h.pump_still finished hp (begun r)
    have hl : w.loop? (a.outlet r pid).link = some l := hl
    rw [World.canRead_of_loop? hl] at still
    simp only [Race.canPump, Bool.or_eq_false_iff, Bool.and_eq_false_iff] at still
    have empty := still.1.2.resolve_left (by simpa using reading)
    have both : l.closed = none ∧ d.queue r pid = [] := by
      simpa [Loopback.canRead, carries.inward spared] using empty
    exact both.2
  case grants =>
    intro r pid hp
    have still := h.pump_still finished hp (begun r)
    simp only [Race.canPump, Bool.or_eq_false_iff] at still
    exact still.2

theorem shows_start (a : Arena) (S : Suite) (s : Entropy) : a.Shows (a.start S s) (Duel.fresh S) := by
  have first : a.seat a.first = 0 := if_pos rfl
  have second : a.seat a.first.peer = 1 := if_neg (Role.ne_peer _).symm
  have open' (pid : PathId) : ¬ (Duel.fresh S).Closed pid := by
    rintro ⟨r, hr⟩
    cases hr
  refine ⟨rfl, rfl, fun r => ?_, fun i site hs => ?_, fun pid hp => ?_⟩
  · refine ⟨a.site S r, ?_, rfl, rfl, rfl, fun _ => rfl, by simp [Duel.fresh, Session.idle, Session.isIdle]⟩
    rcases Role.eq_or_eq_peer r a.first with rfl | rfl
    · rw [first]; rfl
    · rw [second]; rfl
  · rcases i with _ | _ | i
    · exact ⟨_, first.symm⟩
    · exact ⟨_, second.symm⟩
    · cases hs
  · have hi : a.link pid < a.pairs.length := by
      rw [← List.length_map (f := Prod.fst)]
      exact List.idxOf_lt_length_of_mem hp
    refine ⟨.new a.pairs[a.link pid].2, ?_, Nat.le_max_right .., ?_, ?_⟩
    · simp [World.loop?, start, World.start, hi]
    · exact ⟨by simp [Loopback.new], fun closed => (open' pid closed).elim⟩
    · intro _ r
      cases (a.outlet r pid).side <;> rfl

theorem shows_acts (agrees : S.Agrees) {xs : List Act} (course : w.Course xs)
    (honest : Duel.Honest a.ak a.nominator a.pids a.config a.order d v) (h : a.Shows w d) :
    ∃ d' v', Duel.Honest a.ak a.nominator a.pids a.config a.order d' v' ∧ a.Shows (w.acts xs) d' := by
  induction xs generalizing w d v with
  | nil => exact ⟨d, v, honest, h⟩
  | cons x xs ih =>
    obtain ⟨can, rest⟩ := course
    rcases h.act agrees honest can with shows | ⟨d', step, shows⟩
    · exact ih rest honest shows
    · obtain ⟨v', honest'⟩ := honest.step agrees a.terms step
      exact ih rest honest' shows

/-- For any paths, capacities, orders and policies, in every course of the world two devices that meet
never fail, and when nothing can happen any more both have won, with the same path and hash. -/
theorem converges (agrees : S.Agrees) (a : Arena) (s : Entropy) (xs : List Act)
    (course : (a.start S s).Course xs) :
    let w := (a.start S s).acts xs
    (∀ r failure, w.result? (a.seat r) ≠ some (.error failure)) ∧
    (w.Finished → ∃ pid hash, ∀ r, w.result? (a.seat r) = some (.ok (pid, hash))) := by
  intro w
  obtain ⟨v, honest⟩ := Duel.honest_fresh (S := S) a.terms
  obtain ⟨d, v', honest, shows⟩ := shows_acts agrees course honest (shows_start a S s)
  have same (r : Role) : w.result? (a.seat r) = (d.session r).result? := by
    obtain ⟨site, hs, seats⟩ := shows.seats r
    have hs : w.sites[a.seat r]? = some site := hs
    simp [World.result?, World.session?, hs, seats.session]
  refine ⟨fun r failure => ?_, fun finished => ?_⟩
  · rw [same]
    exact (honest.side r).no_failure failure
  · obtain ⟨pid, hash, won⟩ := honest.rest a.terms (shows.resting finished)
    exact ⟨pid, hash, fun r => (same r).trans (won r)⟩

/-! ### Two pairs, and a window -/

/-- The initiator uses a window. -/
def plainArena : Arena where
  ak := Octets.zero 32
  nominator := .initiator
  pairs := [(7, 1), (3, 0)]
  nonempty := by decide
  distinct := by decide
  side := fun pid => if pid = 7 then .a else .b
  config r := { Config.standard r (Octets.zero 32) with policy := .bestRtt 1 }
  role _ := rfl
  nominates _ := rfl
  key _ := rfl
  order r := if r = .initiator then [7, 3] else [3, 7]
  arranged r := by cases r <;> decide
  first := .responder

def plainCourse : List Act :=
  let session (i n : Nat) : List Act := List.replicate n (.move (.session i))
  let pump (i : Nat) (pid : PathId) : List Act := List.replicate 2 (.move (.pump i pid))
  [.connect 0, .connect 1] ++ session 0 5 ++ session 1 1 ++ pump 1 7 ++ session 1 4 ++ pump 0 7 ++
    session 0 4 ++ pump 1 7 ++ session 1 2 ++ pump 1 3 ++ session 1 4 ++ pump 0 3 ++ session 0 4 ++
    pump 1 3 ++ session 1 2 ++ [.tick] ++ session 1 5 ++ [.move (.pump 0 3)] ++ pump 0 7 ++
    session 0 3 ++ [.move (.pump 1 3)]

theorem converges_plain :
    let w := (plainArena.start .plain (.cycle [1])).acts plainCourse
    Suite.plain.Agrees ∧ (plainArena.start .plain (.cycle [1])).Course plainCourse ∧ w.Finished ∧
    (∀ r failure, w.result? (plainArena.seat r) ≠ some (.error failure)) ∧
    ∃ pid hash, ∀ r, w.result? (plainArena.seat r) = some (.ok (pid, hash)) := by
  intro w
  have agrees : Suite.plain.Agrees := fun a b => ⟨_, rfl, Suite.plain_symm b a⟩
  have course : (plainArena.start .plain (.cycle [1])).Course plainCourse :=
    of_decide_eq_true (by cbv)
  have settled : ((plainArena.start .plain (.cycle [1])).acts plainCourse).isSettled = true := by cbv
  have finished : w.Finished := World.finished_of_isSettled settled
  obtain ⟨never, won⟩ := converges agrees plainArena (.cycle [1]) plainCourse course
  exact ⟨agrees, course, finished, never, won finished⟩

end Arena

end PathRace
