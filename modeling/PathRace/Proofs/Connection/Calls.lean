import PathRace.Control
import PathRace.Proofs.Connection.Halves
import PathRace.Proofs.World.Sites

/-! Calls on an open connection. Each half runs one call at a time; a call proceeds move by move,
interleaved with every other task, and can be cancelled between two moves. `Opened.came`: the effect of
an act on the connection's site is one of the cases of `Deed`. -/

namespace PathRace

/-! ### Frame lemmas for sites and links -/

namespace World

variable {E : Type}

theorem answer_setSession (i : Nat) (y : Session E) (w : World E) :
    (w.setSession i y).answer = w.answer := by
  unfold setSession
  split
  · rfl
  · exact carryOut_keeps (p := World.answer) (fun _ _ _ => rfl) ..

theorem operation_setSession (i : Nat) (y : Session E) (w : World E) :
    (w.setSession i y).operation = w.operation := by
  unfold setSession
  split
  · rfl
  · exact carryOut_keeps (p := World.operation) (fun _ _ _ => rfl) ..

theorem answer_write (o : Outlet) (write : Writing) (w : World E) :
    (w.write o write).2.answer = w.answer := by
  unfold World.write
  split <;> rfl

theorem fst_write (w w' : World E) (links : w'.links = w.links) (now : w'.now = w.now) (o : Outlet)
    (write : Writing) : (w'.write o write).1 = (w.write o write).1 := by
  unfold World.write link?
  rw [links]
  split
  · rfl
  · rw [now]

end World

/-! ### Calls -/

namespace World

variable {E : Type} [Engine E]

/-- The world with one call that a caller waits for. -/
def awaiting {E : Type} (call : Operation) (w : World E) : World E :=
  { w with operation := some call, answer := none }

/-- One move of a call: the rest of it, its answer, and the world afterwards. -/
def conduct (call : Operation) (w : World E) : Option Operation × Option Answer × World E :=
  let after := (w.awaiting call).moveOperation
  (after.operation, after.answer, { after with operation := w.operation, answer := w.answer })

def canConduct (call : Operation) (w : World E) : Bool := (w.awaiting call).canMoveOperation

theorem conduct_of_site {call : Operation} {i : Nat} {w : World E} {x : Session E}
    (site : call.site? = some i) (hx : w.session? i = some x) :
    w.conduct call =
      let after := (w.awaiting call).moveSite call x
      (after.operation, after.answer, { after with operation := w.operation, answer := w.answer }) := by
  obtain ⟨s, hs, rfl⟩ := Option.map_eq_some_iff.1 hx
  cases call with
  | read | write | peerSend | peerSent | peerReceive => cases site
  | _ =>
    obtain rfl := Option.some.inj site
    simp only [conduct, awaiting, moveOperation, Operation.site?, Option.bind_some, hs]

end World

def Answer.failure? : Answer → Option Failure
  | .done (.error failure) | .payload (.error failure) => some failure
  | _ => none

def Answer.payload? : Answer → Option Bytes
  | .payload (.ok data) => data
  | _ => none

inductive Half
  | reader
  | writer
  deriving DecidableEq

namespace Half

def isHeld (r : Race) : Half → Bool
  | reader => r.hasReader
  | writer => r.hasWriter

def leave : Half → Race.Move
  | reader => .dropReader
  | writer => .dropWriter

/-- The calls that a half makes at site `i`. -/
def Makes (i : Nat) : Half → Operation → Prop
  | reader, call => ∃ ask, call = .recv i ask
  | writer, call => (∃ data, call = .send i data) ∨ ∃ write rest, call = .writeWinner i write rest

end Half

/-! ### A connection -/

structure Connection (E : Type) where
  site : Nat
  world : World E
  /-- The call that a half is waiting for. -/
  calls : Half → Option Operation
  failures : List Failure
  payloads : List Bytes

namespace Connection

variable {E : Type} [Engine E]

inductive Act
  | task (t : Task)
  /-- An arbitrary change to a link. -/
  | link (k : Nat) (f : Link → Link)
  | wait (ms : Nat)
  | raise (cause : Cause)
  /-- The signal is cancelled without a cause. -/
  | cancel
  | send (data : Bytes)
  /-- A raw chunk is written. -/
  | write (chunk : Bytes)
  | recv
  | goOn (half : Half)
  | giveUp (half : Half)
  | drop (half : Half)

def race? (c : Connection E) : Option Race := c.world.race? c.site

def holds (half : Half) (c : Connection E) : Bool := c.race?.any half.isHeld

def begin (half : Half) (call : Operation) (c : Connection E) : Connection E :=
  if c.holds half ∧ c.calls half = none then
    { c with calls := Function.update c.calls half (some call) }
  else c

def giveUp (half : Half) (c : Connection E) : Connection E :=
  { c with calls := Function.update c.calls half none }

def goOn (half : Half) (c : Connection E) : Connection E :=
  match c.calls half with
  | none => c
  | some call =>
    if c.world.canConduct call then
      let (left, answer, world) := c.world.conduct call
      { c with
        world
        calls := Function.update c.calls half left
        failures := c.failures ++ (answer.bind Answer.failure?).toList
        payloads := c.payloads ++ (answer.bind Answer.payload?).toList }
    else c

/-- An act that is not enabled changes nothing. -/
def after (c : Connection E) : Act → Connection E
  | .task t => if t ≠ .operation ∧ c.world.canMove t then { c with world := c.world.move t } else c
  | .link k f => { c with world := c.world.onLink k f }
  | .wait ms => { c with world := { c.world with now := c.world.now + ms } }
  | .raise cause => { c with world := (c.world.raise c.site cause).2 }
  | .cancel =>
    { c with world := c.world.onRace c.site fun r => { r with signal := r.signal.cancel } }
  | .send data => c.begin .writer (.send c.site data)
  | .write chunk => c.begin .writer (.writeWinner c.site none [chunk])
  | .recv => c.begin .reader (.recv c.site true)
  | .goOn half => c.goOn half
  | .giveUp half => c.giveUp half
  | .drop half =>
    { c.giveUp half with world := c.world.onRace c.site (·.after half.leave) }

def run (ms : List Act) (c : Connection E) : Connection E := ms.foldl after c

end Connection

/-! ### Effect of an act -/

/-- The answer of a `recv` after asking the engine, if it has one already. -/
def Answer.ofTake (result : Option (Except Failure Bytes)) : Option Answer :=
  result.map fun answer => .payload (answer.map some)

def Operation.ofTake (i : Nat) : Option (Except Failure Bytes) → Option Operation
  | none => some (.recv i false)
  | some _ => none

/-- The answer of a `recv` after feeding the engine, if it has one already. -/
def Answer.ofFeed : Option (Except Failure (Option Unit)) → Option Answer
  | some (.ok none) => some (.payload (.ok none))
  | some (.error failure) => some (.payload (.error failure))
  | _ => none

def Operation.ofFeed (i : Nat) : Option (Except Failure (Option Unit)) → Option Operation
  | none => some (.recv i false)
  | some (.ok (some ())) => some (.recv i true)
  | _ => none

namespace Connection

variable {E : Type} [Engine E]

/-- The effect of an act on the session of site `i`, with the answer to the call that moved, if one did. -/
inductive Deed (w : World E) (i : Nat) (calls : Half → Option Operation) (x : Session E) :
    Act → Session E → Option Answer → Prop
  | still {m : Act} : Deed w i calls x m x none
  | raised {cause : Cause} :
      Deed w i calls x (.raise cause) { x with race := x.race.after (.raise cause) } none
  | cancelled : Deed w i calls x .cancel
      { x with race := { x.race with signal := x.race.signal.cancel } } none
  | swept : Deed w i calls x (.task (.watcher i)) { x with race := x.race.after .sweep } none
  | pumped {q : PathId} {o : Outlet} (outlet : w.outletOf i q = some o) :
      Deed w i calls x (.task (.pump i q)) { x with race := x.race.after (.pump q (w.read o).1) } none
  | dropped {half : Half} : Deed w i calls x (.drop half) { x with race := x.race.after half.leave } none
  | sent {data : Bytes} {pieces : List Bytes} (answer : (x.send data).1 = .ok pieces) :
      Deed w i calls x (.goOn .writer) (x.send data).2 none
  | unsent {data : Bytes} {failure : Failure} (answer : (x.send data).1 = .error failure) :
      Deed w i calls x (.goOn .writer) (x.send data).2 (some (.done (.error failure)))
  | finished : Deed w i calls x (.goOn .writer) x (some (.done (.ok ())))
  | refused {cause : Cause} (raised : x.race.signal.cause = some cause) :
      Deed w i calls x (.goOn .writer) x (some (.done (.error (.ofCause cause))))
  | interrupted {cause : Cause} (heard : x.race.signal.heard = some cause) :
      Deed w i calls x (.goOn .writer) x (some (.done (.error (.ofCause cause))))
  | unwritten {pid : PathId} {o : Outlet} {write : Writing} {rest : List Bytes} {fault : PathFault}
      (call : calls .writer = some (.writeWinner i (some write) rest)) (won : x.race.winner? = some pid)
      (outlet : w.outletOf i pid = some o) (failed : (w.write o write).1 = .inl (.error fault)) :
      Deed w i calls x (.goOn .writer) { x with race := x.race.after (.raise (.pathFailed pid)) }
        (some (.done (.error (.transport pid fault))))
  | took {now : Nat} {s : Entropy} :
      Deed w i calls x (.goOn .reader) (x.take now s).2.1 (Answer.ofTake (x.take now s).1)
  | fed : Deed w i calls x (.goOn .reader) x.feed.2 (Answer.ofFeed x.feed.1)

end Connection

/-! ### Invariants of a deed -/

namespace Race

variable {r : Race} {pid : PathId}

theorem winner?_sweep (h : r.winner? = some pid) : (r.after .sweep).winner? = some pid := by
  simp only [after, sweep]
  split_ifs
  · split <;> exact h
  · exact h

theorem winner?_leave (h : r.winner? = some pid) (half : Half) :
    (r.after half.leave).winner? = some pid := by
  cases half with
  | reader =>
    simp only [Half.leave, after, dropReader]
    split_ifs
    · split
      · rename_i w backlog reader writer hc
        have hw : w = pid := by simpa [winner?, hc] using h
        split_ifs <;> simp [winner?, raise, hw]
      · exact h
    · exact h
  | writer =>
    simp only [Half.leave, after, dropWriter]
    split_ifs
    · split
      · rename_i w backlog reader writer hc
        have hw : w = pid := by simpa [winner?, hc] using h
        split_ifs <;> simp [winner?, raise, hw]
      · exact h
    · exact h

end Race

namespace Connection

variable {E : Type} [Engine E] {w : World E} {i : Nat} {calls : Half → Option Operation}
  {x x' : Session E} {m : Act} {answer : Option Answer} {engine : E} {pid : PathId}

theorem Deed.stays (d : Deed w i calls x m x' answer) (h : x.Joined engine pid) : x.Stays x' pid := by
  cases d with
  | still | finished | refused | interrupted => exact h.stays
  | raised => exact h.stays_race h.winner (.raised _ _)
  | unwritten => exact h.stays_race h.winner (.raised _ _)
  | cancelled =>
    obtain ⟨hash, state⟩ := h.state
    exact ⟨⟨engine, ⟨hash, state⟩, h.winner, fun _ => rfl⟩, .cancel _⟩
  | swept => exact h.stays_race (Race.winner?_sweep h.winner) (Race.later_after .sweep _)
  | @pumped q o outlet =>
    refine h.stays_race ?_ (Race.later_after (.pump q (w.read o).1) _)
    rw [Race.winner?, (Race.pumped_after x.race q (w.read o).1).consumer]
    exact h.winner
  | @dropped half =>
    exact h.stays_race (Race.winner?_leave h.winner half) (Race.later_after half.leave _)
  | sent | unsent => exact (h.sends _).stays h
  | took => exact (h.takes _ _).stays h
  | fed => exact h.feeds.stays h

/-! ### The tasks of the world -/

omit [Engine E] in
theorem session?_movePump (hx : w.session? i = some x) {q : PathId} {o : Outlet}
    (outlet : w.outletOf i q = some o) (can : w.canMove (.pump i q) = true) :
    (w.movePump i q).session? i =
      some { x with race := x.race.after (.pump q (w.read o).1) } := by
  have race := World.race?_of_session? hx
  have pumpable : x.race.canPump q (w.canRead o) = true := by
    simpa [World.canMove, race, outlet] using can
  simp only [World.movePump, race, outlet]
  by_cases hr : (!x.race.isHalting && x.race.reading.contains q) = true
  · rw [if_pos hr]
    have same : (w.read o).2.session? i = some x := by simpa [World.session?] using hx
    rw [World.setRace_of_session? same, World.session?_setSession same, if_pos rfl,
      World.after_pump_of_reading hr]
  · rw [if_neg hr, World.setRace_of_session? hx, World.session?_setSession hx, if_pos rfl]
    have away : x.race.isReading q = false := by simpa [Race.isReading] using hr
    have can' := World.canPump_of_not_reading pumpable (by simpa using hr)
    rw [Race.after_pump_of_not_reading away]
    simp [Race.after, can']

theorem deed_movePump (hx : w.session? i = some x) {j : Nat} {q : PathId}
    (can : w.canMove (.pump j q) = true) :
    ∃ x', Deed w i calls x (.task (.pump j q)) x' none ∧ (w.movePump j q).session? i = some x' := by
  by_cases hij : i = j
  · subst hij
    cases outlet : w.outletOf i q with
    | some o => exact ⟨_, .pumped outlet, session?_movePump hx outlet can⟩
    | none =>
      refine ⟨x, .still, ?_⟩
      unfold World.movePump
      rw [outlet]
      split
      · rename_i none_there
        cases none_there
      · exact hx
  · refine ⟨x, .still, ?_⟩
    unfold World.movePump
    split
    · rename_i race o hrace outlet
      obtain ⟨site, hs, rfl⟩ := Option.map_eq_some_iff.1 hrace
      have hy := World.session?_of_site hs
      have same (k : Nat) : (w.read o).2.session? k = w.session? k := by simp [World.session?]
      split_ifs
      · dsimp only
        rw [World.setRace_of_session? ((same j).trans hy),
          World.session?_setSession ((same j).trans hy), if_neg hij, same, hx]
      · rw [World.setRace_of_session? hy, World.session?_setSession hy, if_neg hij, hx]
    · exact hx

theorem deed_moveSession (hx : w.session? i = some x) (h : x.Joined engine pid) (j : Nat) :
    (w.moveSession j).session? i = some x := by
  by_cases hij : i = j
  · subst hij
    obtain ⟨site, hs, rfl⟩ := Option.map_eq_some_iff.1 hx
    obtain ⟨hash, state⟩ := h.state
    simp only [World.moveSession, hs, state]
    exact hx
  · unfold World.moveSession
    cases hs : w.sites[j]? with
    | none => exact hx
    | some site =>
      have hy := World.session?_of_site hs
      have apart {w' : World E} {y : Session E} (sites : w'.sites = w.sites) :
          (w'.setSession j y).session? i = some x := by
        have same (k : Nat) : w'.session? k = w.session? k := by simp [World.session?, sites]
        rw [World.session?_setSession ((same j).trans hy), if_neg hij, same, hx]
      dsimp only
      split
      · exact apart rfl
      · split_ifs
        · exact apart rfl
        · split
          · exact hx
          · exact apart (World.sites_write ..)
      · exact apart rfl
      · exact hx

theorem deed_move (hx : w.session? i = some x) (h : x.Joined engine pid) {t : Task}
    (ht : t ≠ .operation) (can : w.canMove t = true) :
    ∃ x', Deed w i calls x (.task t) x' none ∧ (w.move t).session? i = some x' := by
  cases t with
  | operation => exact (ht rfl).elim
  | session j => exact ⟨x, .still, deed_moveSession hx h j⟩
  | pump j q => exact deed_movePump hx can
  | sender o => exact ⟨x, .still, hx⟩
  | background o =>
    refine ⟨x, .still, ?_⟩
    simp only [World.move]
    split
    · refine Eq.trans ?_ hx
      simp [World.session?]
    · exact hx
  | watcher j =>
    simp only [World.move]
    split
    · exact ⟨x, .still, hx⟩
    · rename_i race hrace
      obtain ⟨site, hs, rfl⟩ := Option.map_eq_some_iff.1 hrace
      have hy := World.session?_of_site hs
      have sweepable : site.session.race.canSweep = true := by simpa [World.canMove, hrace] using can
      rw [World.setRace_of_session? hy, World.session?_setSession hy]
      split_ifs with hij
      · subst hij
        obtain rfl := Option.some.inj (hy.symm.trans hx)
        refine ⟨_, .swept, ?_⟩
        simp [Race.after, sweepable]
      · exact ⟨x, .still, hx⟩

/-! ### The calls -/

/-- One move of a call acts on its site as a `Deed` and leaves a call of the same half, if any. -/
def Comes (w : World E) (i : Nat) (calls : Half → Option Operation) (x : Session E) (half : Half)
    (call : Operation) : Prop :=
  ∃ x', Deed w i calls x (.goOn half) x' (w.conduct call).2.1 ∧
    (w.conduct call).2.2.session? i = some x' ∧ ∀ call' ∈ (w.conduct call).1, half.Makes i call'

theorem comes_of_move {half : Half} {call : Operation} {after : World E} (site : call.site? = some i)
    (hx : w.session? i = some x)
    (moved : (w.awaiting call).moveSite call x = after)
    (d : Deed w i calls x (.goOn half) x' after.answer) (session : after.session? i = some x')
    (next : ∀ call' ∈ after.operation, half.Makes i call') : Comes w i calls x half call := by
  unfold Comes
  rw [World.conduct_of_site site hx, moved]
  exact ⟨x', d, session, next⟩

omit [Engine E] in
theorem makes_of_finish {half : Half} (answer : Answer) (w : World E) :
    ∀ call ∈ (w.finish answer).operation, half.Makes i call := by
  simp [World.finish]

omit [Engine E] in
theorem makes_of_goOn (write : Option Writing) (rest : List Bytes) (w : World E) :
    ∀ call ∈ (w.goOn (.writeWinner i write rest)).operation, Half.writer.Makes i call := by
  rintro call ⟨⟩
  exact .inr ⟨write, rest, rfl⟩

theorem comes_send (hx : w.session? i = some x) (data : Bytes) :
    Comes w i calls x .writer (.send i data) := by
  let w₀ : World E := w.awaiting (.send i data)
  have hx₀ : w₀.session? i = some x := hx
  have session := World.session?_setSession hx₀ (x.send data).2 i
  rw [if_pos rfl] at session
  cases answer : (x.send data).1 with
  | error failure =>
    have moved : w₀.moveSite (.send i data) x =
        (w₀.setSession i (x.send data).2).finish (.done (.error failure)) := by
      simp only [World.moveSite, answer]
    exact comes_of_move rfl hx moved (.unsent answer) session (makes_of_finish _ _)
  | ok pieces =>
    have moved : w₀.moveSite (.send i data) x =
        (w₀.setSession i (x.send data).2).goOn (.writeWinner i none pieces) := by
      simp only [World.moveSite, answer]
    have waits : (w₀.setSession i (x.send data).2).answer = none := World.answer_setSession ..
    exact comes_of_move rfl hx moved (waits ▸ .sent answer) session (makes_of_goOn _ _ _)

theorem comes_next (hx : w.session? i = some x) (h : x.Joined engine pid) (rest : List Bytes) :
    Comes w i calls x .writer (.writeWinner i none rest) := by
  let w₀ : World E := w.awaiting (.writeWinner i none rest)
  cases rest with
  | nil =>
    have moved : w₀.moveSite (.writeWinner i none []) x = w₀.finish (.done (.ok ())) := by
      simp only [World.moveSite, World.moveWriteWinner, h.winner]
    exact comes_of_move rfl hx moved .finished hx (makes_of_finish _ _)
  | cons piece rest =>
    cases hc : x.race.signal.cause with
    | some cause =>
      have moved : w₀.moveSite (.writeWinner i none (piece :: rest)) x =
          w₀.finish (.done (.error (.ofCause cause))) := by
        simp only [World.moveSite, World.moveWriteWinner, h.winner, Race.openWinnerWrite, hc]
      exact comes_of_move rfl hx moved (.refused hc) hx (makes_of_finish _ _)
    | none =>
      have moved : w₀.moveSite (.writeWinner i none (piece :: rest)) x =
          w₀.goOn (.writeWinner i (some (.offered piece)) rest) := by
        simp only [World.moveSite, World.moveWriteWinner, h.winner, Race.openWinnerWrite, hc]
      exact comes_of_move rfl hx moved .still hx (makes_of_goOn _ _ _)

theorem comes_open (hx : w.session? i = some x) (h : x.Joined engine pid) {write : Writing}
    {rest : List Bytes} (call : calls .writer = some (.writeWinner i (some write) rest)) :
    Comes w i calls x .writer (.writeWinner i (some write) rest) := by
  let w₀ : World E := w.awaiting (.writeWinner i (some write) rest)
  have hx₀ : w₀.session? i = some x := hx
  have race₀ := World.race?_of_session? hx₀
  cases heard : x.race.signal.heard with
  | some cause =>
    have moved : w₀.moveSite (.writeWinner i (some write) rest) x =
        w₀.finish (.done (.error (.ofCause cause))) := by
      simp only [World.moveSite, World.moveWriteWinner, h.winner, World.continueWrite, race₀,
        Option.bind_some, heard]
    exact comes_of_move rfl hx moved (.interrupted heard) hx (makes_of_finish _ _)
  | none =>
    cases outlet : w₀.outletOf i pid with
    | none =>
      have moved : w₀.moveSite (.writeWinner i (some write) rest) x =
          w₀.goOn (.writeWinner i (some write) rest) := by
        simp only [World.moveSite, World.moveWriteWinner, h.winner, World.continueWrite, race₀,
          Option.bind_some, heard, outlet]
      exact comes_of_move rfl hx moved .still hx (makes_of_goOn _ _ _)
    | some o =>
      have same : (w₀.write o write).2.session? i = some x := by simpa [World.session?] using hx₀
      have waits : (w₀.write o write).2.answer = none := World.answer_write o write w₀
      have at_world := World.fst_write w₀ w rfl rfl o write
      have opened (p : Progress) (w₁ : World E) (hw : w₀.write o write = (p, w₁)) :
          w₀.continueWrite i pid write = (.ok p, w₁) := by
        simp only [World.continueWrite, race₀, Option.bind_some, heard, outlet, hw]
      rcases hw : w₀.write o write with ⟨(fault | _) | write', w₁⟩ <;>
        simp only [hw] at same waits at_world <;> replace opened := opened _ _ hw
      · have moved : w₀.moveSite (.writeWinner i (some write) rest) x =
            (w₁.setRace i (x.race.raise (.pathFailed pid))).finish
              (.done (.error (.transport pid fault))) := by
          simp only [World.moveSite, World.moveWriteWinner, h.winner, opened, Race.failWinnerWrite]
        rw [World.setRace_of_session? same] at moved
        refine comes_of_move rfl hx moved (.unwritten call h.winner outlet at_world) ?_
          (makes_of_finish _ _)
        have session := World.session?_setSession same
          { x with race := x.race.raise (.pathFailed pid) } i
        rwa [if_pos rfl] at session
      · have moved : w₀.moveSite (.writeWinner i (some write) rest) x =
            w₁.goOn (.writeWinner i none rest) := by
          simp only [World.moveSite, World.moveWriteWinner, h.winner, opened]
        exact comes_of_move rfl hx moved (waits ▸ .still) same (makes_of_goOn _ _ _)
      · have moved : w₀.moveSite (.writeWinner i (some write) rest) x =
            w₁.goOn (.writeWinner i (some write') rest) := by
          simp only [World.moveSite, World.moveWriteWinner, h.winner, opened]
        exact comes_of_move rfl hx moved (waits ▸ .still) same (makes_of_goOn _ _ _)

theorem conduct_of_move {call : Operation} {left : Option Operation} {after : World E} {y : Session E}
    (site : call.site? = some i) (hx : w.session? i = some x)
    (moved : (w.awaiting call).moveSite call x = after) (session : after.session? i = some y)
    (operation : after.operation = left) (told : after.answer = answer) :
    ∃ w', w'.session? i = some y ∧ w.conduct call = (left, answer, w') := by
  subst operation told
  rw [World.conduct_of_site site hx, moved]
  exact ⟨{ after with operation := w.operation, answer := w.answer }, session, rfl⟩

theorem conduct_take (hx : w.session? i = some x) :
    ∃ w', w'.session? i = some (x.take w.now w.entropy).2.1 ∧ w.conduct (.recv i true) =
      (Operation.ofTake i (x.take w.now w.entropy).1, Answer.ofTake (x.take w.now w.entropy).1, w') := by
  let w₁ : World E := { w.awaiting (.recv i true) with entropy := (x.take w.now w.entropy).2.2 }
  let w₂ : World E := w₁.setSession i (x.take w.now w.entropy).2.1
  have session : w₂.session? i = some (x.take w.now w.entropy).2.1 := by
    have hx₁ : w₁.session? i = some x := hx
    rw [World.session?_setSession hx₁, if_pos rfl]
  cases result : (x.take w.now w.entropy).1 with
  | none =>
    have moved : (w.awaiting (.recv i true)).moveSite (.recv i true) x = w₂.goOn (.recv i false) := by
      simp only [World.moveSite, World.moveRecv, if_true, w₁, w₂, World.awaiting, result]
    have waits : w₂.answer = none := World.answer_setSession ..
    exact conduct_of_move rfl hx moved session rfl waits
  | some answer =>
    have moved : (w.awaiting (.recv i true)).moveSite (.recv i true) x =
        w₂.finish (.payload (answer.map some)) := by
      simp only [World.moveSite, World.moveRecv, if_true, w₁, w₂, World.awaiting, result]
    exact conduct_of_move rfl hx moved session rfl rfl

theorem conduct_feed (hx : w.session? i = some x) :
    ∃ w', w'.session? i = some x.feed.2 ∧ w.conduct (.recv i false) =
      (Operation.ofFeed i x.feed.1, Answer.ofFeed x.feed.1, w') := by
  let w₁ : World E := (w.awaiting (.recv i false)).setSession i x.feed.2
  have session : w₁.session? i = some x.feed.2 := by
    have hx₀ : (w.awaiting (.recv i false)).session? i = some x := hx
    rw [World.session?_setSession hx₀, if_pos rfl]
  have waits : w₁.answer = none := World.answer_setSession ..
  rcases result : x.feed.1 with _ | failure | _ | _
  · have moved : (w.awaiting (.recv i false)).moveSite (.recv i false) x = w₁ := by
      simp only [World.moveSite, World.moveRecv, Bool.false_eq_true, if_false, w₁, result]
    have same : w₁.operation = some (.recv i false) := World.operation_setSession ..
    exact conduct_of_move rfl hx moved session same waits
  · have moved : (w.awaiting (.recv i false)).moveSite (.recv i false) x =
        w₁.finish (.payload (.error failure)) := by
      simp only [World.moveSite, World.moveRecv, Bool.false_eq_true, if_false, w₁, result]
    exact conduct_of_move rfl hx moved session rfl rfl
  · have moved : (w.awaiting (.recv i false)).moveSite (.recv i false) x =
        w₁.finish (.payload (.ok none)) := by
      simp only [World.moveSite, World.moveRecv, Bool.false_eq_true, if_false, w₁, result]
    exact conduct_of_move rfl hx moved session rfl rfl
  · have moved : (w.awaiting (.recv i false)).moveSite (.recv i false) x = w₁.goOn (.recv i true) := by
      simp only [World.moveSite, World.moveRecv, Bool.false_eq_true, if_false, w₁, result]
    exact conduct_of_move rfl hx moved session rfl waits

theorem comes_recv (hx : w.session? i = some x) (ask : Bool) :
    Comes w i calls x .reader (.recv i ask) := by
  cases ask with
  | true =>
    obtain ⟨w', session, conducted⟩ := conduct_take hx
    unfold Comes
    rw [conducted]
    refine ⟨_, .took, session, ?_⟩
    cases (x.take w.now w.entropy).1 with
    | none => rintro call ⟨⟩; exact ⟨false, rfl⟩
    | some answer => simp [Operation.ofTake]
  | false =>
    obtain ⟨w', session, conducted⟩ := conduct_feed hx
    unfold Comes
    rw [conducted]
    refine ⟨_, .fed, session, ?_⟩
    rcases x.feed.1 with _ | failure | _ | _
    · rintro call ⟨⟩; exact ⟨false, rfl⟩
    · simp [Operation.ofFeed]
    · simp [Operation.ofFeed]
    · rintro call ⟨⟩; exact ⟨true, rfl⟩

theorem comes_call (hx : w.session? i = some x) (h : x.Joined engine pid) {half : Half} {call : Operation}
    (made : calls half = some call) (makes : half.Makes i call) : Comes w i calls x half call := by
  cases half with
  | reader =>
    obtain ⟨ask, rfl⟩ := makes
    exact comes_recv hx ask
  | writer =>
    rcases makes with ⟨data, rfl⟩ | ⟨write, rest, rfl⟩
    · exact comes_send hx data
    · cases write with
      | none => exact comes_next hx h rest
      | some write => exact comes_open hx h made

omit [Engine E] in
theorem session?_onRace (hx : w.session? i = some x) (f : Race → Race) :
    (w.onRace i f).session? i = some { x with race := f x.race } := by
  simp only [World.onRace, World.race?_of_session? hx]
  rw [World.setRace_of_session? hx, World.session?_setSession hx, if_pos rfl]

omit [Engine E] in
theorem session?_raise (hx : w.session? i = some x) (cause : Cause) :
    (w.raise i cause).2.session? i = some (x.raise cause).2 := by
  obtain ⟨site, hs, rfl⟩ := Option.map_eq_some_iff.1 hx
  simp only [World.raise, hs]
  rw [World.session?_setSession hx, if_pos rfl]

/-! ### An open connection -/

structure Opened (c : Connection E) (x : Session E) (pid : PathId) : Prop where
  session : c.world.session? c.site = some x
  joined : ∃ engine, x.Joined engine pid
  calls : ∀ half, ∀ call ∈ c.calls half, half.Makes c.site call

/-- An act leads from one connection to another by a `Deed` at the site. -/
structure Came (c : Connection E) (x : Session E) (m : Act) (x' : Session E) (answer : Option Answer)
    (c' : Connection E) : Prop where
  deed : Deed c.world c.site c.calls x m x' answer
  site : c'.site = c.site
  session : c'.world.session? c.site = some x'
  calls : ∀ half, ∀ call ∈ c'.calls half, half.Makes c.site call
  failures : c'.failures = c.failures ++ (answer.bind Answer.failure?).toList
  payloads : c'.payloads = c.payloads ++ (answer.bind Answer.payload?).toList

variable {c c' : Connection E}

theorem Came.opened (h : c.Came x m x' answer c') (joined : x.Joined engine pid) :
    c'.Opened x' pid where
  session := h.site ▸ h.session
  joined := (h.deed.stays joined).joined
  calls := h.site ▸ h.calls

omit [Engine E] in
theorem calls_update (calls : ∀ half, ∀ call ∈ c.calls half, half.Makes c.site call) {half : Half}
    {left : Option Operation} (makes : ∀ call ∈ left, half.Makes c.site call) :
    ∀ half', ∀ call ∈ Function.update c.calls half left half', half'.Makes c.site call := by
  intro half' call hc
  by_cases same : half' = half
  · subst same
    rw [Function.update_self] at hc
    exact makes call hc
  · rw [Function.update_of_ne same] at hc
    exact calls half' call hc

theorem Opened.aside (h : c.Opened x pid) {m : Act} {world : World E}
    (deed : Deed c.world c.site c.calls x m x' none) (session : world.session? c.site = some x') :
    c.Came x m x' none { c with world } where
  deed := deed
  site := rfl
  session := session
  calls := h.calls
  failures := (List.append_nil _).symm
  payloads := (List.append_nil _).symm

theorem Opened.begin (h : c.Opened x pid) (m : Act) (half : Half) (call : Operation)
    (makes : half.Makes c.site call) : c.Came x m x none (c.begin half call) := by
  unfold Connection.begin
  split_ifs
  · exact ⟨.still, rfl, h.session, calls_update h.calls (by rintro _ ⟨⟩; exact makes), by simp, by simp⟩
  · exact h.aside .still h.session

theorem Opened.goOn (h : c.Opened x pid) (half : Half) :
    ∃ x' answer, c.Came x (.goOn half) x' answer (c.goOn half) := by
  unfold Connection.goOn
  cases hc : c.calls half with
  | none => exact ⟨x, none, h.aside .still h.session⟩
  | some call =>
    dsimp only
    split_ifs
    · obtain ⟨engine, joined⟩ := h.joined
      obtain ⟨x', deed, session, makes⟩ := comes_call h.session joined hc (h.calls half call hc)
      exact ⟨x', _, deed, rfl, session, calls_update h.calls makes, rfl, rfl⟩
    · exact ⟨x, none, h.aside .still h.session⟩

/-- Every act on a connection is a `Deed` at its site. -/
theorem Opened.came (h : c.Opened x pid) (m : Act) : ∃ x' answer, c.Came x m x' answer (c.after m) := by
  cases m with
  | task t =>
    simp only [Connection.after]
    split_ifs with can
    · obtain ⟨engine, joined⟩ := h.joined
      obtain ⟨x', deed, session⟩ := deed_move h.session joined can.1 can.2
      exact ⟨x', none, h.aside deed session⟩
    · exact ⟨x, none, h.aside .still h.session⟩
  | link k f => exact ⟨x, none, h.aside .still h.session⟩
  | wait ms => exact ⟨x, none, h.aside .still h.session⟩
  | raise cause => exact ⟨_, none, h.aside .raised (session?_raise h.session cause)⟩
  | cancel => exact ⟨_, none, h.aside .cancelled (session?_onRace h.session _)⟩
  | send data => exact ⟨x, none, h.begin _ .writer _ (.inl ⟨data, rfl⟩)⟩
  | write chunk => exact ⟨x, none, h.begin _ .writer _ (.inr ⟨none, [chunk], rfl⟩)⟩
  | recv => exact ⟨x, none, h.begin _ .reader _ ⟨true, rfl⟩⟩
  | goOn half => exact h.goOn half
  | giveUp half =>
    exact ⟨x, none, .still, rfl, h.session, calls_update h.calls (by simp), by simp [Connection.after,
      Connection.giveUp], by simp [Connection.after, Connection.giveUp]⟩
  | drop half =>
    exact ⟨_, none, .dropped, rfl, session?_onRace h.session _, calls_update h.calls (by simp),
      by simp [Connection.after, Connection.giveUp], by simp [Connection.after, Connection.giveUp]⟩

end Connection

end PathRace
