import PathRace.Proofs.Connection.FailStop

/-! When a connection closes whose halves are dropped separately. On a path that neither ends nor fails,
and with no raise from outside, the signal is raised exactly if both halves are dropped, the engine
rejects a chunk, or a pump moves with a chunk for a reader that has been dropped
(`raised_iff_given_up`). With both halves dropped the path is closed once. -/

namespace PathRace

/-! ### The race -/

namespace Race

/-- Winner `pid` has not been closed, and at least one of its halves is in use. -/
structure Alive (r : Race) (pid : PathId) : Prop where
  seated : r.Seated
  quiet : r.signal.cause = none
  owner : r.ownership = .nominated pid true
  consumer : ∃ backlog reader writer, r.consumer = .nominated pid backlog reader writer ∧
    (reader || writer) = true

def Abandoned (r : Race) : Prop := r.hasReader = false ∧ r.hasWriter = false

variable {r : Race} {pid q : PathId}

theorem Alive.running (a : r.Alive pid) : r.isHalting = false := by
  rw [isHalting_eq, a.seated.heard, a.quiet]
  rfl

theorem Alive.held (a : r.Alive pid) : ¬ r.Abandoned := by
  rintro ⟨reader, writer⟩
  obtain ⟨backlog, rd, wr, hc, held⟩ := a.consumer
  simp only [hasReader, hasWriter, hc] at reader writer
  simp [reader, writer] at held

theorem Alive.same {r' : Race} (a : r.Alive pid) (seated : r'.Seated) (signal : r'.signal = r.signal)
    (owner : r'.ownership = r.ownership) (consumer : r'.consumer = r.consumer) : r'.Alive pid where
  seated := seated
  quiet := by rw [signal, a.quiet]
  owner := by rw [owner, a.owner]
  consumer := by rw [consumer]; exact a.consumer

theorem Alive.consumes (a : r.Alive pid) : r.consumes = r.hasReader := by
  obtain ⟨backlog, reader, writer, hc, -⟩ := a.consumer
  simp [Race.consumes, hasReader, hc]

theorem Alive.deliver (a : r.Alive pid) {item : Inbound} (goesOn : q = pid → item.isLast = false) :
    (r.deliver q item).signal = r.signal ∧ (r.deliver q item).ownership = r.ownership := by
  have other (last : item.isLast = true) (failed : Bool) :
      Race.prune q failed { r with reading := r.reading.erase q } =
        { r with reading := r.reading.erase q } := by
    have hq : pid ≠ q := by
      rintro rfl
      rw [goesOn rfl] at last
      cases last
    simp [Race.prune, a.owner, hq]
  cases item with
  | chunk data => exact ⟨rfl, rfl⟩
  | ended => simp [Race.deliver, other rfl]
  | failed fault => simp [Race.deliver, other rfl]

theorem Alive.grant (a : r.Alive pid) (reader : r.hasReader = true) (q : PathId) :
    (r.grant q).signal = r.signal ∧ (r.grant q).ownership = r.ownership := by
  unfold Race.grant
  rw [a.consumes, reader]
  simp only [Bool.not_true, Bool.false_eq_true, if_false]
  split
  · exact ⟨rfl, rfl⟩
  · split_ifs <;> exact ⟨rfl, rfl⟩

theorem after_pump_of_line (running : r.isHalting = false) (away : q ∉ r.reading)
    (item : Option Inbound) :
    r.after (.pump q item) = if r.canGrant q then r.grant q else r := by
  simp [after, canPump, Race.pump, running, away]

theorem Alive.canGrant (a : r.Alive pid) (gone : r.hasReader = false) :
    r.canGrant q = true ↔ q ∈ r.line.map Prod.fst := by
  unfold Race.canGrant
  rw [a.consumes, gone]
  cases r.line with
  | nil => simp
  | cons e rest => simp [@eq_comm _ e.1]

/-- A move of a pump keeps the connection alive, unless the pump holds a chunk for a reader that has
been dropped. -/
theorem Alive.pump (a : r.Alive pid) {item : Option Inbound}
    (goesOn : q = pid → r.isReading q = true → ∀ i ∈ item, i.isLast = false) :
    (r.after (.pump q item)).Alive pid ∨ (r.hasReader = false ∧ q ∈ r.line.map Prod.fst) := by
  have pumped := pumped_after r q item
  have alive (kept : (r.after (.pump q item)).signal = r.signal ∧
      (r.after (.pump q item)).ownership = r.ownership) : (r.after (.pump q item)).Alive pid :=
    a.same (pumped.seated a.seated) kept.1 kept.2 pumped.consumer
  by_cases reading : q ∈ r.reading
  · refine .inl (alive ?_)
    cases item with
    | none => simp [after, Race.pump, a.running, reading]
    | some i =>
      have moved : r.after (.pump q (some i)) = r.deliver q i := by
        simp [after, canPump, Race.pump, a.running, reading]
      rw [moved]
      have reads : r.isReading q = true := by simp [isReading, a.running, reading]
      exact a.deliver fun same => goesOn same reads i rfl
  · have moved := after_pump_of_line a.running reading item
    cases reader : r.hasReader with
    | true =>
      refine .inl (alive ?_)
      rw [moved]
      split_ifs
      · exact a.grant reader q
      · exact ⟨rfl, rfl⟩
    | false =>
      by_cases line : q ∈ r.line.map Prod.fst
      · exact .inr ⟨rfl, line⟩
      · refine .inl (alive ?_)
        rw [moved, if_neg fun can => line ((a.canGrant reader).1 can)]
        exact ⟨rfl, rfl⟩

/-- A pump with a chunk for a dropped reader raises `closed`. -/
theorem Alive.deserted (a : r.Alive pid) (gone : r.hasReader = false) (line : q ∈ r.line.map Prod.fst)
    (item : Option Inbound) : (r.after (.pump q item)).isHalting = true := by
  have away : q ∉ r.reading := fun reading =>
    (List.nodup_append.1 a.seated.distinct).2.2 q reading q line rfl
  have granted : r.grant q = (r.leaveLine q).raise .closed := by
    simp [Race.grant, a.consumes, gone]
  rw [after_pump_of_line a.running away, if_pos ((a.canGrant gone).2 line), granted]
  exact isHalting_raise (r := r.leaveLine q) a.seated.heard .closed

theorem Alive.read (a : r.Alive pid) :
    r.read.2.Alive pid ∧ ∀ failure, r.read.1 ≠ some (.error failure) := by
  obtain ⟨backlog, reader, writer, hc, held⟩ := a.consumer
  have won : r.winner? = some pid := winner?_of_consumer hc
  cases backlog with
  | cons chunk rest =>
    simp only [Race.read, hc]
    refine ⟨⟨?_, a.quiet, a.owner, rest, reader, writer, rfl, held⟩, by simp⟩
    exact a.seated.same (.refl _) rfl (fun _ he => he) (fun _ hw => hw ▸ won) fun _ _ _ => rfl
  | nil =>
    have unheard : r.signal.heard = none := by simpa [isHalting] using a.running
    simp only [Race.read, hc, unheard]
    cases slot : r.slot with
    | some e =>
      obtain ⟨sender, data⟩ := e
      obtain rfl : sender = pid := a.seated.slot pid won _ slot
      have seated : Seated { r with slot := none } :=
        a.seated.same (.refl _) rfl (by rintro _ ⟨⟩) (fun _ hw => hw) fun _ _ _ => rfl
      have alive : Alive { r with slot := none } sender := ⟨seated, a.quiet, a.owner, a.consumer⟩
      simp only [if_true]
      exact ⟨hc ▸ alive, by simp⟩
    | none =>
      dsimp only
      split_ifs
      · simp only [a.quiet]
        exact ⟨a, by simp⟩
      · exact ⟨a, by simp⟩

theorem Alive.leave (a : r.Alive pid) (half : Half) :
    (r.after half.leave).Alive pid ∨
      ((r.after half.leave).isHalting = true ∧ (r.after half.leave).Abandoned) := by
  have seated := seated_after a.seated half.leave
  obtain ⟨backlog, reader, writer, hc, held⟩ := a.consumer
  cases half with
  | reader =>
    have moved : Moved r .dropReader [] (r.after .dropReader) := moved_after a.seated rfl
    simp only [Half.leave] at seated ⊢
    generalize r.after .dropReader = r' at seated moved ⊢
    cases moved with
    | still => exact .inl a
    | left racing => simp [isRacing, hc] at racing
    | unread consumer =>
      rw [consumer] at hc
      cases hc
      exact .inl ⟨seated, a.quiet, a.owner, [], false, true, rfl, rfl⟩
    | dropped => exact .inr ⟨isHalting_raise a.seated.heard .closed, rfl, rfl⟩
  | writer =>
    have moved : Moved r .dropWriter [] (r.after .dropWriter) := moved_after a.seated rfl
    simp only [Half.leave] at seated ⊢
    generalize r.after .dropWriter = r' at seated moved ⊢
    cases moved with
    | still => exact .inl a
    | left racing => simp [isRacing, hc] at racing
    | unheld consumer =>
      rw [consumer] at hc
      cases hc
      exact .inl ⟨seated, a.quiet, a.owner, _, true, false, rfl, rfl⟩
    | dropped => exact .inr ⟨isHalting_raise a.seated.heard .closed, rfl, rfl⟩

theorem alive_of_nominate (s : r.Seated) (quiet : r.signal.cause = none) (racing : r.isRacing = true)
    (won : (r.nominate pid).1 = .ok ()) : (r.nominate pid).2.Alive pid := by
  have seated := seated_after s (.nominate pid)
  simp only [after, racing, if_true] at seated
  rcases nominate_cases pid r with ⟨pids, -, owned, -, he⟩ | ⟨_, -, -, he⟩ | ⟨-, he⟩ <;>
    rw [he] at seated won ⊢
  · exact ⟨seated, quiet, by simp [decided, owned], _, true, true, rfl, rfl⟩
  · cases won
  · cases won

/-! ### What has been closed stays closed -/

theorem closes_grow_after {pids : List PathId} (k : Kept pids r) (distinct : pids.Nodup) (m : Move) :
    r.closes <+: (r.after m).closes := by
  have owned : r.pids.Nodup := (List.nodup_append.1 (k.accounted.nodup_iff.2 distinct)).2.1
  obtain ⟨new, closes, -⟩ := justified_of_nodup owned m
  rw [closes]
  exact List.prefix_append ..

theorem Abandoned.of_consumer {r' : Race} (h : r.Abandoned) (same : r'.consumer = r.consumer) :
    r'.Abandoned := by
  simpa only [Abandoned, hasReader, hasWriter, same] using h

theorem Abandoned.read (h : r.Abandoned) : r.read.2.Abandoned := by
  unfold Race.read
  split
  · rename_i hc
    simpa [Abandoned, hasReader, hasWriter, hc] using h
  · rename_i hc
    split
    · exact h
    · split
      · dsimp only
        split_ifs
        · exact h
        · exact h
      · split_ifs <;> exact h
  · exact h

theorem Abandoned.leave (h : r.Abandoned) (half : Half) : (r.after half.leave).Abandoned := by
  cases half <;> simpa [Half.leave, after, h.1, h.2] using h

end Race

/-! ### One call -/

namespace Session

variable {E : Type} [Engine E] {x x' : Session E} {e : E} {pid : PathId} {data : Bytes}

theorem Sends.race {answer : Except Failure (List Bytes)} (k : x.Sends e pid data answer x') :
    x'.race = x.race ∨ ∃ c, x'.race = x.race.raise c := by
  cases k with
  | refused | sent => exact .inl rfl
  | lost => exact .inr ⟨_, rfl⟩

theorem Takes.race {now : Nat} {s : Entropy} {answer : Option (Except Failure Bytes)}
    (k : x.Takes e pid now s answer x') : x'.race = x.race ∨ ∃ c, x'.race = x.race.raise c := by
  cases k with
  | nothing | payload => exact .inl rfl
  | lost => exact .inr ⟨_, rfl⟩

theorem Feeds.race {answer : Option (Except Failure (Option Unit))} (k : x.Feeds e pid answer x') :
    x'.race = x.race.read.2 ∨ ∃ c, x'.race = x.race.read.2.raise c := by
  cases k with
  | waits read | stopped read | ended read | fed read => exact .inl (by rw [read])
  | lost read => exact .inr ⟨_, by rw [read]⟩

/-- A call on a live connection fails only if the engine rejects something. -/
theorem Sends.alive {answer : Except Failure (List Bytes)} (k : x.Sends e pid data answer x')
    (a : x.race.Alive pid) : (x'.race.Alive pid ∧ ∀ f, answer ≠ .error f) ∨
      (x'.race.isHalting = true ∧ ∃ f, answer = .error f ∧ f.isRejection = true) := by
  cases k with
  | refused raised => simp [a.quiet] at raised
  | sent => exact .inl ⟨a, by simp⟩
  | lost _ rejected => exact .inr ⟨Race.isHalting_raise a.seated.heard _, _, rfl, rejected⟩

theorem Takes.alive {now : Nat} {s : Entropy} {answer : Option (Except Failure Bytes)}
    (k : x.Takes e pid now s answer x') (a : x.race.Alive pid) :
    (x'.race.Alive pid ∧ ∀ f, answer ≠ some (.error f)) ∨
      (x'.race.isHalting = true ∧ ∃ f, answer = some (.error f) ∧ f.isRejection = true) := by
  cases k with
  | nothing | payload => exact .inl ⟨a, by simp⟩
  | lost _ rejected => exact .inr ⟨Race.isHalting_raise a.seated.heard _, _, rfl, rejected⟩

theorem Feeds.alive {answer : Option (Except Failure (Option Unit))} (k : x.Feeds e pid answer x')
    (a : x.race.Alive pid) : (x'.race.Alive pid ∧ ∀ f, answer ≠ some (.error f)) ∨
      (x'.race.isHalting = true ∧ ∃ f, answer = some (.error f) ∧ f.isRejection = true) := by
  obtain ⟨alive, unfailing⟩ := a.read
  cases k with
  | waits read | ended read | fed read =>
    rw [read] at alive
    exact .inl ⟨alive, by simp⟩
  | stopped read => exact (unfailing _ (by rw [read])).elim
  | lost read rejected =>
    rw [read] at alive
    exact .inr ⟨Race.isHalting_raise alive.seated.heard _, _, rfl, rejected⟩

end Session

/-! ### One act -/

namespace Connection

variable {E : Type} [Engine E] {c : Connection E} {x x' : Session E} {m : Act} {answer : Option Answer}
  {e : E} {pid : PathId}

/-- Acts from outside that may end the connection: the signal is raised or cancelled, or the winner's
path ends or fails a write. -/
def disturbs (c : Connection E) : Act → Bool
  | .raise _ | .cancel => true
  | .task (.pump i q) => i == c.site && c.race?.any fun r => r.isReading q && r.winner? == some q &&
      ((c.world.outletOf i q).bind fun o => (c.world.read o).1).any Inbound.isLast
  | .goOn .writer =>
    match c.calls .writer with
    | some (.writeWinner i (some write) _) =>
      ((c.race?.bind Race.winner?).bind (c.world.outletOf i)).any fun o =>
        match (c.world.write o write).1 with
        | .inl (.error _) => true
        | _ => false
    | _ => false
  | _ => false

/-- A pump moves whose chunk has no reader any more while the signal is quiet. -/
def deserts (c : Connection E) : Act → Bool
  | .task (.pump i q) => i == c.site && (c.world.outletOf i q).isSome &&
      c.race?.any fun r => !r.isHalting && !r.hasReader && r.line.any (·.1 == q)
  | _ => false

theorem Deed.moves (d : Deed c.world c.site c.calls x m x' answer) (h : x.Joined e pid)
    (smooth : c.disturbs m = false) :
    (∃ move, x'.race = x.race.after move) ∨ Race.SameTable x.race x'.race := by
  have raised {r r' : Race} (k : r' = r ∨ ∃ c, r' = r.raise c) : Race.SameTable r r' := by
    rcases k with rfl | ⟨c, rfl⟩
    · exact .refl r'
    · exact Race.sameTable_raise c r
  cases d with
  | still | finished | refused | interrupted => exact .inr (.refl _)
  | cancelled => cases smooth
  | @raised cause => exact .inl ⟨.raise cause, rfl⟩
  | swept => exact .inl ⟨.sweep, rfl⟩
  | @pumped q o => exact .inl ⟨.pump q (c.world.read o).1, rfl⟩
  | @dropped half => exact .inl ⟨half.leave, rfl⟩
  | @unwritten pid => exact .inl ⟨.raise (.pathFailed pid), rfl⟩
  | sent | unsent => exact .inr (raised (h.sends _).race)
  | took => exact .inr (raised (h.takes _ _).race)
  | fed => exact .inr ((Race.sameTable_read x.race).trans (raised h.feeds.race))

theorem Deed.abandoned (d : Deed c.world c.site c.calls x m x' answer) (h : x.Joined e pid)
    (abandoned : x.race.Abandoned) : x'.race.Abandoned := by
  have raised {r r' : Race} (k : r' = r ∨ ∃ c, r' = r.raise c) (abandoned : r.Abandoned) :
      r'.Abandoned := by
    rcases k with rfl | ⟨c, rfl⟩
    · exact abandoned
    · exact abandoned
  cases d with
  | still | finished | refused | interrupted | cancelled | raised | unwritten => exact abandoned
  | swept => exact abandoned.of_consumer (consumer_sweep x.race)
  | @pumped q o => exact abandoned.of_consumer (Race.pumped_after x.race q (c.world.read o).1).consumer
  | @dropped half => exact abandoned.leave half
  | sent | unsent => exact raised (h.sends _).race abandoned
  | took => exact raised (h.takes _ _).race abandoned
  | fed => exact raised h.feeds.race abandoned.read

theorem Deed.alive (d : Deed c.world c.site c.calls x m x' answer) (opened : c.Opened x pid)
    (h : x.Joined e pid) (a : x.race.Alive pid) (smooth : c.disturbs m = false) :
    (x'.race.Alive pid ∧ answer.bind Answer.failure? = none) ∨ x'.race.isHalting = true ∧
      ((∃ f, answer.bind Answer.failure? = some f ∧ f.isRejection = true) ∨ x'.race.Abandoned ∨
        c.deserts m = true) := by
  have race : c.race? = some x.race := opened.race?
  have won : x.race.winner? = some pid := h.winner
  cases d with
  | still | finished => exact .inl ⟨a, rfl⟩
  | refused raised => simp [a.quiet] at raised
  | interrupted heard =>
    have running := a.running
    simp [Race.isHalting, heard] at running
  | cancelled | raised => cases smooth
  | swept => exact .inl ⟨by simpa [Race.after, Race.canSweep, a.running] using a, rfl⟩
  | @pumped q o outlet =>
    have goesOn : q = pid → x.race.isReading q = true →
        ∀ item ∈ (c.world.read o).1, item.isLast = false := by
      rintro rfl reading item hi
      have item_eq : (c.world.read o).1 = some item := hi
      simpa [disturbs, race, reading, won, outlet, item_eq] using smooth
    rcases a.pump goesOn with alive | ⟨gone, line⟩
    · exact .inl ⟨alive, rfl⟩
    · refine .inr ⟨a.deserted gone line _, .inr (.inr ?_)⟩
      simpa [deserts, race, outlet, a.running, gone] using line
  | @dropped half =>
    rcases a.leave half with alive | ⟨halting, abandoned⟩
    · exact .inl ⟨alive, rfl⟩
    · exact .inr ⟨halting, .inr (.inl abandoned)⟩
  | @sent data pieces result =>
    have sends := h.sends data
    rcases sends.alive a with ⟨alive, -⟩ | ⟨-, f, failed, -⟩
    · exact .inl ⟨alive, rfl⟩
    · rw [result] at failed
      cases failed
  | @unsent data failure result =>
    have sends := h.sends data
    rcases sends.alive a with ⟨-, unfailing⟩ | ⟨halting, f, failed, rejected⟩
    · exact (unfailing failure result).elim
    · rw [result] at failed
      cases failed
      exact .inr ⟨halting, .inl ⟨failure, rfl, rejected⟩⟩
  | @unwritten q o write rest fault call winner outlet failed =>
    simp [disturbs, race, call, winner, outlet, failed] at smooth
  | @took now s =>
    rcases (h.takes now s).alive a with ⟨alive, unfailing⟩ | ⟨halting, f, failed, rejected⟩
    · refine .inl ⟨alive, ?_⟩
      rcases result : (x.take now s).1 with _ | failure | data
      · rfl
      · exact (unfailing failure result).elim
      · rfl
    · exact .inr ⟨halting, .inl ⟨f, by rw [failed]; rfl, rejected⟩⟩
  | fed =>
    rcases h.feeds.alive a with ⟨alive, unfailing⟩ | ⟨halting, f, failed, rejected⟩
    · refine .inl ⟨alive, ?_⟩
      rcases result : x.feed.1 with _ | failure | _ | _
      · rfl
      · exact (unfailing failure result).elim
      · rfl
      · rfl
    · exact .inr ⟨halting, .inl ⟨f, by rw [failed]; rfl, rejected⟩⟩

theorem halting_of_deserts (opened : c.Opened x pid) (a : x.race.Alive pid) (d : c.deserts m = true)
    (came : c.Came x m x' answer (c.after m)) : x'.race.isHalting = true := by
  have race : c.race? = some x.race := opened.race?
  unfold deserts at d
  split at d
  · rename_i i q
    simp only [race, Option.any_some, Bool.and_eq_true, beq_iff_eq, Bool.not_eq_true',
      List.any_eq_true] at d
    obtain ⟨⟨rfl, outlet⟩, ⟨-, gone⟩, e, line, rfl⟩ := d
    obtain ⟨o, outlet⟩ := Option.isSome_iff_exists.1 outlet
    have line : e.1 ∈ x.race.line.map Prod.fst := List.mem_map_of_mem line
    have can : c.world.canMove (.pump c.site e.1) = true := by
      have race : c.world.race? c.site = some x.race := race
      simp [World.canMove, race, Race.canPump, (a.canGrant gone).2 line]
    have after : c.after (.task (.pump c.site e.1)) =
        { c with world := c.world.movePump c.site e.1 } := by
      simp [Connection.after, can, World.move]
    have session := came.session
    rw [after, session?_movePump opened.session outlet can] at session
    obtain rfl := Option.some.inj session
    exact a.deserted gone line _
  · cases d

theorem session?_watcher (session : c.world.session? c.site = some x) :
    (c.after (.task (.watcher c.site))).world.session? c.site =
      some { x with race := x.race.after .sweep } := by
  have race := World.race?_of_session? session
  cases can : x.race.canSweep with
  | true =>
    have after : c.after (.task (.watcher c.site)) =
        { c with world := c.world.setRace c.site x.race.sweep } := by
      simp [Connection.after, World.canMove, World.move, race, can]
    rw [after]
    dsimp only
    rw [World.setRace_of_session? session, World.session?_setSession session, if_pos rfl]
    simp [Race.after, can]
  | false =>
    have after : c.after (.task (.watcher c.site)) = c := by
      simp [Connection.after, World.canMove, race, can]
    rw [after, session]
    simp [Race.after, can]

/-! ### A whole run -/

def undisturbed : List Act → Connection E → Bool
  | [], _ => true
  | m :: ms, c => !c.disturbs m && undisturbed ms (c.after m)

def deserted : List Act → Connection E → Bool
  | [], _ => false
  | m :: ms, c => c.deserts m || deserted ms (c.after m)

/-- How often `pid` has been closed. -/
def closings (pid : PathId) (c : Connection E) : Nat :=
  c.race?.elim 0 fun r => (r.closes.map Prod.fst).count pid

/-- Before any call on the connection has failed: its path is open, and at least one of its halves is in
use. -/
structure Lively (c : Connection E) (x : Session E) (pid : PathId) (paths : List PathId) : Prop where
  opened : c.Opened x pid
  alive : x.race.Alive pid
  kept : Race.Kept paths x.race
  distinct : paths.Nodup
  fresh : c.failures = []

theorem given_up_run {P : Prop} (opened : c.Opened x pid) (halting : x.race.isHalting = true)
    (reason : (∃ f ∈ c.failures, f.isRejection = true) ∨ x.race.Abandoned ∨ P) (ms : List Act) :
    ∃ y, (c.run ms).Opened y pid ∧ y.race.isHalting = true ∧
      ((∃ f ∈ (c.run ms).failures, f.isRejection = true) ∨ y.race.Abandoned ∨ P) := by
  induction ms generalizing c x with
  | nil => exact ⟨x, opened, halting, reason⟩
  | cons m ms ih =>
    obtain ⟨e, joined⟩ := opened.joined
    obtain ⟨x', answer, came⟩ := opened.came m
    refine ih (came.opened joined) (Race.isHalting_of_grows (came.deed.stays joined).grows halting) ?_
    rcases reason with ⟨f, told, rejected⟩ | abandoned | other
    · exact .inl ⟨f, came.failures ▸ List.mem_append_left _ told, rejected⟩
    · exact .inr (.inl (came.deed.abandoned joined abandoned))
    · exact .inr (.inr other)

/-- A run that is not disturbed leaves the connection alive, or halted for one of the stated reasons. -/
theorem alive_run (opened : c.Opened x pid) (a : x.race.Alive pid) (fresh : c.failures = [])
    {ms : List Act} (smooth : undisturbed ms c = true) :
    ∃ y, (c.run ms).Opened y pid ∧
      ((y.race.Alive pid ∧ (c.run ms).failures = [] ∧ deserted ms c = false) ∨
        y.race.isHalting = true ∧ ((∃ f ∈ (c.run ms).failures, f.isRejection = true) ∨
          y.race.Abandoned ∨ deserted ms c = true)) := by
  induction ms generalizing c x with
  | nil => exact ⟨x, opened, .inl ⟨a, fresh, rfl⟩⟩
  | cons m ms ih =>
    simp only [undisturbed, Bool.and_eq_true, Bool.not_eq_true'] at smooth
    obtain ⟨e, joined⟩ := opened.joined
    obtain ⟨x', answer, came⟩ := opened.came m
    rcases came.deed.alive opened joined a smooth.1 with ⟨alive, silent⟩ | ⟨halting, reason⟩
    · have stayed : c.deserts m = false := by
        by_contra left
        have halting := halting_of_deserts opened a (by simpa using left) came
        simp [alive.running] at halting
      have fresh' : (c.after m).failures = [] := by rw [came.failures, fresh, silent]; rfl
      simpa only [deserted, stayed, Bool.false_or, run_cons] using
        ih (came.opened joined) alive fresh' smooth.2
    · have reason' : (∃ f ∈ (c.after m).failures, f.isRejection = true) ∨ x'.race.Abandoned ∨
          deserted (m :: ms) c = true := by
        rcases reason with ⟨f, told, rejected⟩ | abandoned | left
        · refine .inl ⟨f, ?_, rejected⟩
          rw [came.failures, told]
          simp
        · exact .inr (.inl abandoned)
        · exact .inr (.inr (by simp [deserted, left]))
      obtain ⟨y, opened', halted, given_up⟩ := given_up_run (came.opened joined) halting reason' ms
      exact ⟨y, opened', .inr ⟨halted, given_up⟩⟩

theorem kept_run {paths : List PathId} (opened : c.Opened x pid) (kept : Race.Kept paths x.race)
    (distinct : paths.Nodup) {ms : List Act} (smooth : undisturbed ms c = true) :
    ∃ y, (c.run ms).Opened y pid ∧ Race.Kept paths y.race ∧ x.race.closes <+: y.race.closes := by
  induction ms generalizing c x with
  | nil => exact ⟨x, opened, kept, List.prefix_refl _⟩
  | cons m ms ih =>
    simp only [undisturbed, Bool.and_eq_true, Bool.not_eq_true'] at smooth
    obtain ⟨e, joined⟩ := opened.joined
    obtain ⟨x', answer, came⟩ := opened.came m
    have step : Race.Kept paths x'.race ∧ x.race.closes <+: x'.race.closes := by
      rcases came.deed.moves joined smooth.1 with ⟨move, moved⟩ | same
      · rw [moved]
        exact ⟨Race.kept_after move kept, Race.closes_grow_after kept distinct move⟩
      · exact ⟨same.kept kept, by rw [same.closes]⟩
    obtain ⟨y, opened', kept', grown⟩ := ih (came.opened joined) step.1 smooth.2
    exact ⟨y, opened', kept', step.2.trans grown⟩

omit [Engine E] in
theorem Opened.holds (h : c.Opened x pid) (half : Half) : c.holds half = half.isHeld x.race := by
  simp [Connection.holds, h.race?]

omit [Engine E] in
theorem Opened.raised (h : c.Opened x pid) : c.raised = x.race.isHalting := by
  simp [Connection.raised, h.race?]

omit [Engine E] in
theorem Opened.closings (h : c.Opened x pid) (q : PathId) :
    c.closings q = (x.race.closes.map Prod.fst).count q := by
  simp [Connection.closings, h.race?]

omit [Engine E] in
theorem Opened.unique {y : Session E} (h : c.Opened x pid) (k : c.Opened y pid) : x = y :=
  Option.some.inj (h.session.symm.trans k.session)

omit [Engine E] in
theorem Opened.abandoned_iff (h : c.Opened x pid) :
    (∀ half, c.holds half = false) ↔ x.race.Abandoned := by
  constructor
  · intro none_held
    have reader := none_held .reader
    have writer := none_held .writer
    rw [h.holds] at reader writer
    exact ⟨reader, writer⟩
  · rintro ⟨reader, writer⟩ half
    rw [h.holds]
    cases half
    · exact reader
    · exact writer

/-- Once the signal is raised, the next turn of the watcher closes the path, and nothing closes it
again. -/
theorem closed_once {paths : List PathId} {ms : List Act} (opened : c.Opened x pid)
    (kept : Race.Kept paths x.race) (distinct : paths.Nodup) (known : pid ∈ paths)
    (halting : x.race.isHalting = true)
    (smooth : undisturbed (.task (.watcher c.site) :: ms) c = true) :
    (c.run (.task (.watcher c.site) :: ms)).closings pid = 1 := by
  obtain ⟨e, joined⟩ := opened.joined
  obtain ⟨x', answer, came⟩ := opened.came (.task (.watcher c.site))
  have swept : x' = { x with race := x.race.after .sweep } :=
    Option.some.inj (came.session.symm.trans (session?_watcher opened.session))
  have raised : x.race.signal.cause.isSome = true := by
    rwa [Race.isHalting_eq, kept.heard] at halting
  have unwatched : x'.race.watching = false := by rw [swept]; exact kept.watching_sweep raised
  have kept' : Race.Kept paths x'.race := by rw [swept]; exact Race.kept_after .sweep kept
  simp only [undisturbed, Bool.and_eq_true] at smooth
  obtain ⟨y, opened', later, grown⟩ := kept_run (came.opened joined) kept' distinct smooth.2
  rw [run_cons, opened'.closings]
  have closed : pid ∈ y.race.closes.map Prod.fst :=
    (grown.map Prod.fst).subset ((kept'.closes_perm unwatched).mem_iff.2 known)
  exact List.count_eq_one_of_mem
    (List.nodup_append.1 (later.accounted.nodup_iff.2 distinct)).1 closed

theorem run_append (c : Connection E) (ms ms' : List Act) : c.run (ms ++ ms') = (c.run ms).run ms' :=
  List.foldl_append

theorem undisturbed_append (c : Connection E) (ms ms' : List Act) :
    undisturbed (ms ++ ms') c = (undisturbed ms c && undisturbed ms' (c.run ms)) := by
  induction ms generalizing c with
  | nil => rfl
  | cons m ms ih =>
    simp only [List.cons_append, undisturbed, ih, Bool.and_assoc]
    rfl

theorem site_run (opened : c.Opened x pid) (ms : List Act) : (c.run ms).site = c.site := by
  induction ms generalizing c x with
  | nil => rfl
  | cons m ms ih =>
    obtain ⟨e, joined⟩ := opened.joined
    obtain ⟨x', answer, came⟩ := opened.came m
    exact (ih (came.opened joined)).trans came.site

/-- As long as the path neither ends nor fails and the signal is not raised from outside, it is raised if
and only if the engine has rejected something, both halves have been dropped, or a pump has moved with a
chunk for a reader that has been dropped. Until then no call fails and the path is open;
after that the watcher's next turn closes it, and it is never closed twice. -/
theorem raised_iff_given_up {paths : List PathId} (lively : c.Lively x pid paths) {ms : List Act}
    (smooth : undisturbed ms c = true) :
    ((c.run ms).raised = true ↔ (∃ f ∈ (c.run ms).failures, f.isRejection = true) ∨
      (∀ half, (c.run ms).holds half = false) ∨ deserted ms c = true) ∧
    ((c.run ms).raised = false → (c.run ms).failures = [] ∧ (c.run ms).closings pid = 0) ∧
    (c.run ms).closings pid ≤ 1 ∧
    ((c.run ms).raised = true → ∀ ms', undisturbed (ms ++ .task (.watcher c.site) :: ms') c = true →
      (c.run (ms ++ .task (.watcher c.site) :: ms')).closings pid = 1) := by
  obtain ⟨opened, alive, kept, distinct, fresh⟩ := lively
  have known : pid ∈ paths := kept.accounted.subset (by simp [Race.accounted, Race.pids, alive.owner])
  obtain ⟨y, opened', fate⟩ := alive_run opened alive fresh smooth
  obtain ⟨z, same, kept', -⟩ := kept_run opened kept distinct smooth
  obtain rfl := opened'.unique same
  have accounted := kept'.accounted.nodup_iff.2 distinct
  rw [opened'.raised, opened'.closings, opened'.abandoned_iff]
  refine ⟨?_, fun running => ?_, List.nodup_iff_count_le_one.1 (List.nodup_append.1 accounted).1 pid,
    fun halting ms' smooth' => ?_⟩
  · rcases fate with ⟨alive', silent, stayed⟩ | ⟨halting, reason⟩
    · rw [alive'.running, silent, stayed]
      simp [alive'.held]
    · exact ⟨fun _ => reason, fun _ => halting⟩
  · rcases fate with ⟨alive', silent, -⟩ | ⟨halting, -⟩
    · have apart := (List.nodup_append.1 accounted).2.2
      have owned : pid ∈ y.race.pids := by simp [Race.pids, alive'.owner]
      exact ⟨silent, List.count_eq_zero.2 fun closed => apart pid closed pid owned rfl⟩
    · rw [running] at halting
      cases halting
  · have site := site_run opened ms
    rw [undisturbed_append, Bool.and_eq_true] at smooth'
    rw [run_append, ← site]
    exact closed_once opened' kept' distinct known halting (site ▸ smooth'.2)

/-! ### One path whose reader is dropped -/

/-- The only path has delivered a chunk and has not been nominated. -/
def openRace : Race :=
  Race.run [.pump 7 (some (.chunk [9])), .pump 7 none] (Race.start [] [7]).2

theorem lively_plainConnection : plainConnection.Lively plainSession 7 [7] where
  opened := opened_plainConnection
  alive := by
    have seated : openRace.Seated := by
      have intact := (Race.intact_opened [] [7]).run [.pump 7 (some (.chunk [9])), .pump 7 none]
      have seated := intact.seated
      rwa [race_run] at seated
    have racing : openRace.isRacing = true := by cbv
    have same : plainRace = (openRace.nominate 7).2 := if_pos racing
    have won : (openRace.nominate 7).1 = .ok () := by cbv
    have alive := Race.alive_of_nominate seated (by cbv) racing won
    rwa [← same] at alive
  kept := Race.kept_run (Race.start_of_nodup [] (by decide) (by decide)).2 _
  distinct := by decide
  fresh := rfl

def writes : List Act := .send [5] :: List.replicate 4 (.goOn .writer)

theorem raised_iff_given_up_plain :
    let ms := .drop .reader :: writes
    plainConnection.Lively plainSession 7 [7] ∧
    undisturbed ms plainConnection = true ∧ (plainConnection.run ms).failures = [] ∧
    (plainConnection.run ms).closings 7 = 0 ∧
    (plainConnection.run (ms ++ [.drop .writer])).raised = true ∧
    (plainConnection.run (ms ++ [.drop .writer] ++ .task (.watcher 0) :: [.wait 1])).closings 7 = 1 := by
  intro ms
  have smooth : undisturbed ms plainConnection = true := by cbv
  have smooth' : undisturbed (ms ++ [.drop .writer]) plainConnection = true := by cbv
  have gone : ∀ half, (plainConnection.run (ms ++ [.drop .writer])).holds half = false := by
    rintro (_ | _) <;> cbv
  obtain ⟨-, quiet, -, -⟩ := raised_iff_given_up lively_plainConnection smooth
  obtain ⟨raised, -, -, once⟩ := raised_iff_given_up lively_plainConnection smooth'
  obtain ⟨failures, open'⟩ := quiet (by cbv)
  have now := raised.2 (.inr (.inl gone))
  exact ⟨lively_plainConnection, smooth, failures, open', now, once now [.wait 1] (by cbv)⟩

/-- One chunk of the peer closes a path whose reader was dropped although its writer is still in use. -/
theorem deserted_plainConnection :
    let ms : List Act := [.drop .reader, .link 0 (Link.onProbe (Probe.feed [8])), .task (.pump 0 7),
      .task (.pump 0 7)]
    undisturbed ms plainConnection = true ∧ (plainConnection.run ms).holds .writer = true ∧
    (plainConnection.run ms).raised = true ∧
    (plainConnection.run (ms ++ [.task (.watcher 0)])).closings 7 = 1 ∧
    (plainConnection.run (ms ++ .task (.watcher 0) :: writes)).failures = [.closed] := by
  refine ⟨?_, ?_, ?_, ?_, ?_⟩ <;> cbv

end Connection

end PathRace
