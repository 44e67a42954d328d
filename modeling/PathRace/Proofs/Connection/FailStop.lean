import PathRace.Proofs.Connection.Calls
import PathRace.Proofs.Race.Stream
import PathRace.Script

/-! A connection fails permanently. After a failed call the signal is raised; once it has a cause, no
write is accepted, and a reader gets the payloads in its engine and the chunks of its backlog, then the
cause (`fails_for_good`). -/

namespace PathRace

/-! ### Writes after a cause -/

namespace World

variable {E : Type} {w : World E} {i : Nat} {x : Session E} {cause : Cause}

theorem carryOut_self (attached : List (PathId × Outlet)) (r : Race) (w : World E) :
    w.carryOut attached r r = w := by
  simp [carryOut]

theorem setSession_self (hx : w.session? i = some x) : w.setSession i x = w := by
  obtain ⟨site, hs, rfl⟩ := Option.map_eq_some_iff.1 hx
  have same : w.onSite i (fun s => { s with session := site.session }) = w := by
    have sites : w.sites.modify i (fun s => { s with session := site.session }) = w.sites := by
      refine List.ext_getElem? fun k => ?_
      rw [List.getElem?_modify]
      split_ifs with hk
      · subst hk; rw [hs]; rfl
      · simp
    rw [onSite, sites]
  simp only [setSession, hs]
  rw [carryOut_self, same]

theorem conduct_of_refusal [Engine E] {call : Operation} {answer : Answer} (site : call.site? = some i)
    (hx : w.session? i = some x)
    (moved : (w.awaiting call).moveSite call x = (w.awaiting call).finish answer) :
    w.conduct call = (none, some answer, w) := by
  rw [conduct_of_site site hx, moved]
  rfl

end World

namespace Connection

variable {E : Type} [Engine E] {w : World E} {i : Nat} {calls : Half → Option Operation}
  {x x' : Session E} {m : Act} {answer : Option Answer} {engine : E} {pid : PathId} {cause : Cause}
  {c : Connection E}

/-- The calls that have something left to write. -/
inductive Writes (i : Nat) : Operation → Prop
  | send (data : Bytes) : Writes i (.send i data)
  | next (chunk : Bytes) (rest : List Bytes) : Writes i (.writeWinner i none (chunk :: rest))
  | open (write : Writing) (rest : List Bytes) : Writes i (.writeWinner i (some write) rest)

theorem refused_of_cause (hx : w.session? i = some x) (h : x.Joined engine pid)
    (raised : x.race.signal.cause = some cause) {call : Operation} (writes : Writes i call) :
    w.conduct call = (none, some (.done (.error (.ofCause cause))), w) := by
  have session : (w.awaiting call).session? i = some x := hx
  have race := World.race?_of_session? session
  obtain ⟨hash, state⟩ := h.state
  cases writes with
  | send data =>
    refine World.conduct_of_refusal rfl hx ?_
    have refused : x.send data = (.error (.ofCause cause), x) := by
      simp only [Session.send, state, raised]
    simp only [World.moveSite, refused, World.setSession_self session]
  | next chunk rest =>
    refine World.conduct_of_refusal rfl hx ?_
    simp only [World.moveSite, World.moveWriteWinner, h.winner, Race.openWinnerWrite, raised]
  | «open» write rest =>
    refine World.conduct_of_refusal rfl hx ?_
    have heard : x.race.signal.heard = some cause := h.sound.heard raised
    simp only [World.moveSite, World.moveWriteWinner, h.winner, World.continueWrite, race,
      Option.bind_some, heard]

/-! ### Reads after a cause -/

/-- The payloads that an engine yields when it is fed only from a given backlog, with the engine and the
backlog afterwards. -/
inductive Draws (pid : PathId) (e₀ : E) (b₀ : List Bytes) : List Bytes → E → List Bytes → Prop
  | start : Draws pid e₀ b₀ [] e₀ b₀
  | asked {got b : List Bytes} {e : E} (h : Draws pid e₀ b₀ got e b) (now : Nat) (s : Entropy) :
      Draws pid e₀ b₀ (got ++ (Session.payload? (Engine.processFrame pid now e s).1).toList)
        (Engine.processFrame pid now e s).2.1 b
  | fed {got rest : List Bytes} {chunk : Bytes} {e : E} (h : Draws pid e₀ b₀ got e (chunk :: rest)) :
      Draws pid e₀ b₀ got (Engine.addChunk pid chunk e).2 rest
  /-- The reader is dropped together with its backlog. -/
  | dropped {got b : List Bytes} {e : E} (h : Draws pid e₀ b₀ got e b) : Draws pid e₀ b₀ got e []

theorem backlogOf_congr {r r' : Race} (same : r'.consumer = r.consumer) (pid : PathId) :
    r'.backlogOf pid = r.backlogOf pid := by
  simp only [Race.backlogOf, same]

theorem consumer_sweep (r : Race) : (r.after .sweep).consumer = r.consumer := by
  simp only [Race.after, Race.sweep]
  split_ifs
  · split <;> rfl
  · rfl

theorem backlogOf_leave (r : Race) (half : Half) (pid : PathId) :
    (r.after half.leave).backlogOf pid = r.backlogOf pid ∨
      (r.after half.leave).backlogOf pid = [] := by
  cases half with
  | reader =>
    simp only [Half.leave, Race.after, Race.dropReader]
    split_ifs
    · split
      · right
        split_ifs <;> simp [Race.backlogOf, Race.raise]
      · exact .inl rfl
    · exact .inl rfl
  | writer =>
    left
    simp only [Half.leave, Race.after, Race.dropWriter]
    split_ifs
    · split
      · rename_i hc
        split_ifs <;> simp [Race.backlogOf, Race.raise, hc]
      · rfl
    · rfl

variable {e e' e₀ : E} {b₀ got : List Bytes}

omit [Engine E] in
theorem engine_eq (h : x.Joined e pid) {q : PathId} {hash : PathHash}
    (state : x.state = .connected e' q hash) : e = e' := by
  obtain ⟨hash', same⟩ := h.state
  rw [state] at same
  cases same
  rfl

theorem sends_of_cause {data : Bytes} {result : Except Failure (List Bytes)}
    (k : x.Sends e pid data result x') (raised : x.race.signal.cause = some cause) :
    x' = x ∧ result = .error (.ofCause cause) := by
  cases k with
  | refused other =>
    rw [raised] at other
    obtain rfl := Option.some.inj other
    exact ⟨rfl, rfl⟩
  | sent quiet | lost quiet => simp [raised] at quiet

theorem draws_of_takes {now : Nat} {s : Entropy} {result : Option (Except Failure Bytes)}
    (k : x.Takes e pid now s result x') (before : Draws pid e₀ b₀ got e (x.race.backlogOf pid))
    (joined : x'.Joined e' pid) :
    Draws pid e₀ b₀ (got ++ ((Answer.ofTake result).bind Answer.payload?).toList) e'
      (x'.race.backlogOf pid) := by
  have asked := before.asked now s
  cases k with
  | nothing none_yet =>
    obtain rfl := engine_eq joined rfl
    rw [none_yet] at asked
    exact asked
  | payload yielded =>
    obtain rfl := engine_eq joined rfl
    rw [yielded] at asked
    exact asked
  | lost none_yet =>
    obtain rfl := engine_eq joined rfl
    rw [none_yet] at asked
    exact asked

theorem draws_of_feeds {result : Option (Except Failure (Option Unit))}
    (k : x.Feeds e pid result x') (h : x.Joined e pid) (heard : x.race.signal.heard = some cause)
    (before : Draws pid e₀ b₀ got e (x.race.backlogOf pid)) (joined : x'.Joined e' pid) :
    Draws pid e₀ b₀ (got ++ ((Answer.ofFeed result).bind Answer.payload?).toList) e'
      (x'.race.backlogOf pid) := by
  rcases Race.read_of_halting h.winner heard with ⟨chunk, rest, backlog, answer, left⟩ | ⟨-, told⟩
  · rw [backlog] at before
    cases k with
    | waits read | stopped read | ended read => simp [read] at answer
    | fed read =>
      obtain rfl := engine_eq joined rfl
      rw [read] at answer left
      cases answer
      simpa [Answer.ofFeed, left] using before.fed
    | lost read =>
      obtain rfl := engine_eq joined rfl
      rw [read] at answer left
      cases answer
      have fed := before.fed
      rw [← left, ← List.append_nil got] at fed
      exact fed
  · cases k with
    | stopped read =>
      obtain ⟨hash, state⟩ := h.state
      obtain rfl := engine_eq joined state
      rw [told] at read
      cases read
      simpa [Answer.ofFeed, Answer.payload?] using before
    | waits read | ended read | fed read | lost read => simp [told] at read

/-- After the raise an act asks the engine, feeds it from the backlog, or touches neither. -/
theorem Deed.draws (d : Deed w i calls x m x' answer) (h : x.Joined e pid)
    (raised : x.race.signal.cause = some cause) (before : Draws pid e₀ b₀ got e (x.race.backlogOf pid)) :
    ∃ e', x'.Joined e' pid ∧ Draws pid e₀ b₀ (got ++ (answer.bind Answer.payload?).toList) e'
      (x'.race.backlogOf pid) := by
  obtain ⟨e', joined⟩ := (d.stays h).joined
  refine ⟨e', joined, ?_⟩
  obtain ⟨hash, state⟩ := h.state
  have kept : Draws pid e₀ b₀ (got ++ []) e (x.race.backlogOf pid) := by simpa using before
  cases d with
  | still | finished | refused | interrupted | raised | cancelled | unwritten =>
    exact engine_eq joined state ▸ kept
  | swept =>
    rw [backlogOf_congr (consumer_sweep x.race)]
    exact engine_eq joined state ▸ kept
  | @pumped q o outlet =>
    rw [backlogOf_congr (Race.pumped_after x.race q (w.read o).1).consumer]
    exact engine_eq joined state ▸ kept
  | @dropped half =>
    obtain rfl := engine_eq joined state
    rcases backlogOf_leave x.race half pid with same | none_left
    · rw [same]; exact kept
    · rw [none_left]; exact kept.dropped
  | @sent data pieces answer =>
    obtain ⟨-, refused⟩ := sends_of_cause (h.sends data) raised
    rw [answer] at refused
    cases refused
  | @unsent data failure answer =>
    obtain ⟨same, -⟩ := sends_of_cause (h.sends data) raised
    rw [same] at joined ⊢
    exact engine_eq joined state ▸ kept
  | @took now s => exact draws_of_takes (h.takes now s) before joined
  | fed => exact draws_of_feeds h.feeds h (h.sound.heard raised) before joined

/-! ### Failed calls leave the signal raised -/

/-- A call that fails leaves the signal raised. -/
theorem Deed.halting (d : Deed w i calls x m x' answer) (h : x.Joined e pid) {failure : Failure}
    (failed : answer.bind Answer.failure? = some failure) : x'.race.isHalting = true := by
  cases d with
  | still | finished | raised | cancelled | swept | pumped | dropped | sent => cases failed
  | @unsent data failure' answer =>
    have sends := h.sends data
    rw [answer] at sends
    exact sends.halting h
  | refused raised => simp [Race.isHalting, h.sound.heard raised]
  | interrupted heard => simp [Race.isHalting, heard]
  | unwritten => exact Race.isHalting_raise_of_sound h.sound _
  | @took now s =>
    have takes := h.takes now s
    rcases result : (x.take now s).1 with _ | failure' | data <;> rw [result] at takes failed
    · cases failed
    · exact takes.halting h
    · cases failed
  | fed =>
    have feeds := h.feeds
    rcases result : x.feed.1 with _ | failure' | _ | _ <;> rw [result] at feeds failed
    · cases failed
    · exact feeds.halting h
    · cases failed
    · cases failed

/-! ### A whole run -/

def raised (c : Connection E) : Bool := c.race?.any (·.isHalting)

def cause? (c : Connection E) : Option Cause := c.race?.bind (·.signal.cause)

omit [Engine E] in
theorem Opened.race? (h : c.Opened x pid) : c.race? = some x.race := by
  obtain ⟨site, hs, rfl⟩ := Option.map_eq_some_iff.1 h.session
  simp [Connection.race?, World.race?, hs]

theorem run_cons (c : Connection E) (m : Act) (ms : List Act) : c.run (m :: ms) = (c.after m).run ms := rfl

theorem raised_run (h : c.Opened x pid) (fresh : c.failures ≠ [] → x.race.isHalting = true)
    (ms : List Act) :
    ∃ x', (c.run ms).Opened x' pid ∧ ((c.run ms).failures ≠ [] → x'.race.isHalting = true) := by
  induction ms generalizing c x with
  | nil => exact ⟨x, h, fresh⟩
  | cons m ms ih =>
    obtain ⟨e, joined⟩ := h.joined
    obtain ⟨x', answer, came⟩ := h.came m
    refine ih (came.opened joined) fun failed => ?_
    rw [came.failures] at failed
    cases now : answer.bind Answer.failure? with
    | some failure => exact came.deed.halting joined now
    | none =>
      rw [now] at failed
      exact Race.isHalting_of_grows (came.deed.stays joined).grows (fresh (by simpa using failed))

theorem draws_run (h : c.Opened x pid) (joined : x.Joined e pid)
    (raised : x.race.signal.cause = some cause) (before : Draws pid e₀ b₀ got e (x.race.backlogOf pid))
    (ms : List Act) :
    ∃ x' e' more, (c.run ms).Opened x' pid ∧ x'.Joined e' pid ∧ x'.race.signal.cause = some cause ∧
      (c.run ms).payloads = c.payloads ++ more ∧
      Draws pid e₀ b₀ (got ++ more) e' (x'.race.backlogOf pid) := by
  induction ms generalizing c x e got with
  | nil => exact ⟨x, e, [], h, joined, raised, (List.append_nil _).symm, by simpa using before⟩
  | cons m ms ih =>
    obtain ⟨x', answer, came⟩ := h.came m
    obtain ⟨e', joined', drawn⟩ := came.deed.draws joined raised before
    have raised' := (came.deed.stays joined).grows.cause cause raised
    obtain ⟨x'', e'', more, opened, joined'', raised'', payloads, draws⟩ :=
      ih (came.opened joined) joined' raised' drawn
    refine ⟨x'', e'', (answer.bind Answer.payload?).toList ++ more, opened, joined'', raised'', ?_, ?_⟩
    · rw [run_cons, payloads, came.payloads, List.append_assoc]
    · rw [← List.append_assoc]
      exact draws

/-! ### Calls of `recv` that need not wait -/

/-- A bound on the moves of a `recv` before it answers. -/
def toLook (i : Nat) (ask : Bool) (w : World E) : Nat :=
  2 * (w.race? i).elim 0 Race.pending + ask.toNat

/-- A `recv` that need not wait: it is answered, or has less to look at. -/
def Prompt (i : Nat) (ask : Bool) (w : World E) : Prop :=
  w.canConduct (.recv i ask) = true ∧
    ((∃ told, (w.conduct (.recv i ask)).2.1 = some (.payload told) ∧ told ≠ .ok none) ∨
      (w.conduct (.recv i ask)).2.1 = none ∧ ∃ ask', (w.conduct (.recv i ask)).1 = some (.recv i ask') ∧
        toLook i ask' (w.conduct (.recv i ask)).2.2 < toLook i ask w)

omit [Engine E] in
theorem toLook_eq (hx : w.session? i = some x) (h : x.Joined e pid) (ask : Bool) :
    toLook i ask w = 2 * (x.race.backlogOf pid).length + ask.toNat := by
  have pending : x.race.pending = (x.race.backlogOf pid).length := by
    have won := h.winner
    unfold Race.winner? at won
    cases hc : x.race.consumer with
    | racing | gone => simp [hc] at won
    | nominated v backlog reader writer =>
      obtain rfl : v = pid := by simpa [hc] using won
      simp [Race.pending, Race.backlogOf, hc]
  obtain ⟨site, hs, rfl⟩ := Option.map_eq_some_iff.1 hx
  simp [toLook, World.race?, hs, pending]

omit [Engine E] in
theorem canConduct_recv (hx : w.session? i = some x) (heard : x.race.signal.heard = some cause)
    (ask : Bool) : w.canConduct (.recv i ask) = true := by
  obtain ⟨site, hs, rfl⟩ := Option.map_eq_some_iff.1 hx
  have readable : site.session.race.canRead = true := by
    unfold Race.canRead
    split
    · rfl
    · simp [Race.canReceive, Race.isHalting, heard]
  simp [World.canConduct, World.awaiting, World.canMoveOperation, World.race?, hs, readable]

theorem prompt_of_cause (hx : w.session? i = some x) (h : x.Joined e pid)
    (raised : x.race.signal.cause = some cause) (ask : Bool) : Prompt i ask w := by
  have heard := h.sound.heard raised
  refine ⟨canConduct_recv hx heard ask, ?_⟩
  rw [toLook_eq hx h]
  cases ask with
  | true =>
    obtain ⟨w', session, conducted⟩ := conduct_take hx
    have takes := h.takes w.now w.entropy
    rw [conducted]
    generalize (x.take w.now w.entropy).1 = result at takes ⊢
    generalize (x.take w.now w.entropy).2.1 = y at takes session
    obtain ⟨e', joined⟩ := (takes.stays h).joined
    cases takes with
    | nothing =>
      refine .inr ⟨rfl, false, rfl, ?_⟩
      rw [toLook_eq session joined]
      simp
    | payload => exact .inl ⟨_, rfl, by simp [Except.map]⟩
    | lost => exact .inl ⟨_, rfl, by simp [Except.map]⟩
  | false =>
    obtain ⟨w', session, conducted⟩ := conduct_feed hx
    have feeds := h.feeds
    rw [conducted]
    generalize x.feed.1 = result at feeds ⊢
    generalize x.feed.2 = y at feeds session
    obtain ⟨e', joined⟩ := (feeds.stays h).joined
    rcases Race.read_of_halting h.winner heard with ⟨chunk, rest, backlog, answer, left⟩ | ⟨-, told⟩
    · cases feeds with
      | waits read | stopped read | ended read => simp [read] at answer
      | fed read =>
        rw [read] at left
        refine .inr ⟨rfl, true, rfl, ?_⟩
        rw [toLook_eq session joined, backlog, left]
        simp only [List.length_cons, Bool.toNat_true, Bool.toNat_false]
        omega
      | lost read => exact .inl ⟨_, rfl, by simp⟩
    · cases feeds with
      | stopped read => exact .inl ⟨_, rfl, by simp⟩
      | waits read | ended read | fed read | lost read => simp [told] at read

/-! ### A race whose signal has been noticed -/

theorem race_run (t : Race.Tape) (ms : List Race.Move) : (t.run ms).race = Race.run ms t.race := by
  induction ms generalizing t with
  | nil => rfl
  | cons m ms ih => exact ih (t.after m)

theorem heard_of_run (before : List Cause) (pids : List PathId) (ms : List Race.Move)
    (raised : (Race.run ms (Race.start before pids).2).signal.cause = some cause) :
    (Race.run ms (Race.start before pids).2).signal.heard = some cause := by
  have sound := ((Race.intact_opened before pids).run ms).seated.heard
  rw [race_run] at sound
  have stopped : (Race.run ms (Race.start before pids).2).signal.stopped =
      (Race.run ms (Race.start before pids).2).signal.cause.isSome := sound
  simp [Signal.heard, stopped, raised]

/-- Every request of the consumer of the race at site `i` fails at once with `failure`. -/
structure Deaf (i : Nat) (failure : Failure) (w : World E) : Prop where
  receive : w.conduct (.receive i) = (none, some (.received (.error failure)), w)
  post : ∀ pid frame, w.conduct (.post i pid frame) = (none, some (.done (.error failure)), w)
  posting : ∀ pid write, w.conduct (.posting i pid write) = (none, some (.done (.error failure)), w)

theorem deaf_of_cause (hx : w.session? i = some x) (raised : x.race.signal.cause = some cause)
    (heard : x.race.signal.heard = some cause) : Deaf i (.ofCause cause) w := by
  have session (call : Operation) : (w.awaiting call).session? i = some x := hx
  have race (call : Operation) := World.race?_of_session? (session call)
  have same (call : Operation) : (w.awaiting call).setRace i x.race = w.awaiting call := by
    rw [World.setRace_of_session? (session call)]
    exact World.setSession_self (session call)
  constructor
  · refine World.conduct_of_refusal rfl hx ?_
    have told : x.race.receive = (some (.error (.ofCause cause)), x.race) := by
      simp only [Race.receive, heard]
    simp only [World.moveSite, told, same]
  · intro pid frame
    refine World.conduct_of_refusal rfl hx ?_
    have told : x.race.openWrite pid = (.refused (.ofCause cause), x.race) := by
      simp only [Race.openWrite, raised]
    simp only [World.moveSite, told, same]
  · intro pid write
    refine World.conduct_of_refusal rfl hx ?_
    simp only [World.moveSite, World.movePosting, World.continueWrite, race, Option.bind_some, heard]

/-- The state of a connection after a raise with a cause: nothing is written, and the reader gets what
the engine and the backlog still yield, then the cause. -/
structure Failed (c : Connection E) (pid : PathId) (cause : Cause) (e₀ : E) (b₀ : List Bytes)
    (drawn : List Bytes) : Prop where
  raised : c.cause? = some cause
  writes : ∀ call, Writes c.site call →
    c.world.conduct call = (none, some (.done (.error (.ofCause cause))), c.world)
  reads : ∀ ask, Prompt c.site ask c.world
  draws : ∃ e b, Draws pid e₀ b₀ drawn e b

theorem Opened.failed (h : c.Opened x pid) (joined : x.Joined e pid)
    (raised : x.race.signal.cause = some cause) (draws : Draws pid e₀ b₀ got e (x.race.backlogOf pid)) :
    c.Failed pid cause e₀ b₀ got where
  raised := by rw [cause?, h.race?]; exact raised
  writes _ writes := refused_of_cause h.session joined raised writes
  reads ask := prompt_of_cause h.session joined raised ask
  draws := ⟨e, _, draws⟩

/-- Whenever a call has failed, the signal is raised. Once it has a cause, a writer is refused with it
and writes nothing, and a reader gets only what the engine and the backlog yield from then on, otherwise
failures. A race with a cause refuses its consumer in the same way. -/
theorem fails_for_good (opened : c.Opened x pid) (fresh : c.failures = []) (ms : List Act) :
    ((c.run ms).failures ≠ [] → (c.run ms).raised = true) ∧
    (∀ cause, (c.run ms).cause? = some cause → ∃ y e, (c.run ms).Opened y pid ∧ y.Joined e pid ∧
      ∀ ms', ∃ drawn, ((c.run ms).run ms').payloads = (c.run ms).payloads ++ drawn ∧
        ((c.run ms).run ms').Failed pid cause e (y.race.backlogOf pid) drawn) ∧
    ∀ before pids ms cause (w : World E) i,
      w.race? i = some (Race.run ms (Race.start before pids).2) →
      (Race.run ms (Race.start before pids).2).signal.cause = some cause → Deaf i (.ofCause cause) w := by
  obtain ⟨y, opened', heard⟩ := raised_run opened (fun failed => (failed fresh).elim) ms
  refine ⟨fun failed => ?_, fun cause raised => ?_, fun before pids ms' cause w i race raised => ?_⟩
  · rw [Connection.raised, opened'.race?]
    exact heard failed
  · obtain ⟨e, joined⟩ := opened'.joined
    rw [cause?, opened'.race?] at raised
    refine ⟨y, e, opened', joined, fun ms' => ?_⟩
    obtain ⟨z, e', drawn, opened'', joined', raised', payloads, draws⟩ :=
      draws_run opened' joined raised .start ms'
    exact ⟨drawn, payloads, opened''.failed joined' raised' draws⟩
  · obtain ⟨site, hs, hr⟩ := Option.map_eq_some_iff.1 race
    have hx := World.session?_of_site hs
    rw [← hr] at raised
    refine deaf_of_cause hx raised ?_
    rw [hr] at raised ⊢
    exact heard_of_run before pids ms' raised

/-! ### A connection over one path -/

/-- Sends every payload as it is and receives every chunk as one payload. -/
def plainEngine : Script where
  isNominator := true
  frames := .ok []
  rules := []
  nominations := []
  creation := none
  queue := []
  nominated := some 7
  calls := [7]

/-- A chunk was in the slot at the nomination. -/
def plainRace : Race :=
  Race.run [.pump 7 (some (.chunk [9])), .pump 7 none, .nominate 7] (Race.start [] [7]).2

def plainSession : Session Script := ⟨plainRace, .connected plainEngine 7 (Octets.zero 32)⟩

def plainConnection : Connection Script where
  site := 0
  world :=
    { links := [⟨7, .probe Probe.new⟩]
      sites := [{
        config := Config.standard .initiator (Octets.zero 32)
        make := fun _ => .ok plainEngine
        setup := none
        paths := []
        attached := [(7, ⟨0, .a⟩)]
        session := plainSession
        held := .whole }]
      background := []
      operation := none
      answer := none
      now := 0
      entropy := .cycle [] }
  calls _ := none
  failures := []
  payloads := []

theorem opened_plainConnection : plainConnection.Opened plainSession 7 where
  session := rfl
  joined := by
    have quiet : plainSession.race.signal.cause = none := by cbv
    exact ⟨plainEngine, ⟨Octets.zero 32, rfl⟩, by cbv, fun raised => by simp [quiet] at raised⟩
  calls _ _ := nofun

/-- The kept chunk is still received after the raise; the next `recv` fails with the cause. -/
theorem fails_for_good_plain :
    let u := plainConnection.run [.raise .protocolError]
    let ms := [.recv] ++ List.replicate 3 (.goOn .reader) ++ [.recv] ++ List.replicate 2 (.goOn .reader)
    plainConnection.Opened plainSession 7 ∧ plainConnection.failures = [] ∧
    u.cause? = some .protocolError ∧
    (u.run ms).world.conduct (.send 0 [5]) =
      (none, some (.done (.error (.aborted .protocolError))), (u.run ms).world) ∧
    (u.run ms).payloads = [[9]] ∧ (u.run ms).failures = [.aborted .protocolError] ∧
    (plainConnection.run (.raise .protocolError :: ms)).raised = true ∧
    Deaf 0 .closed (plainConnection.world.setRace 0 (Race.run [.raise .closed] (Race.start [] [7]).2)) := by
  intro u ms
  have raised : u.cause? = some .protocolError := by cbv
  have failures : (u.run ms).failures = [.aborted .protocolError] := by cbv
  have site : (u.run ms).site = 0 := by cbv
  obtain ⟨-, forGood, races⟩ := fails_for_good opened_plainConnection rfl [.raise .protocolError]
  obtain ⟨heard, -⟩ := fails_for_good opened_plainConnection rfl (.raise .protocolError :: ms)
  obtain ⟨y, e, -, -, later⟩ := forGood _ raised
  obtain ⟨drawn, -, failed⟩ := later ms
  refine ⟨opened_plainConnection, rfl, raised, ?_, by cbv, failures, heard ?_, ?_⟩
  · exact failed.writes _ (site ▸ .send [5])
  · intro none_yet
    have same : (u.run ms).failures = [] := none_yet
    rw [failures] at same
    cases same
  · exact races [] [7] [.raise .closed] .closed _ 0 (by cbv) (by cbv)

end Connection

end PathRace
