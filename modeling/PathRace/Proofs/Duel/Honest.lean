import PathRace.Proofs.Duel.Machine

/-! The invariant of a duel whose devices share a configuration and whose messages are not tampered with
(`Honest`). Neither session fails, a path is closed only after another one has won, and the bytes in
transit on an open path are those that the key exchange has in flight (`Honest.step`). -/

namespace PathRace

namespace Duel

variable {S : Suite} {ak : AuthKey} {nominator : Role} {pids : List PathId} {config : Role → Config}
  {order : Role → List PathId}

/-- Both devices agree on the paths, the key and the nominator. -/
structure Terms (ak : AuthKey) (nominator : Role) (pids : List PathId) (config : Role → Config)
    (order : Role → List PathId) : Prop where
  distinct : pids.Nodup
  nonempty : pids ≠ []
  arranged : ∀ r, (order r).Perm pids
  setup : ∀ r, (config r).setup (order r) = ⟨r, r == nominator, ak, order r⟩

/-- What holds of the election of a racing session, by what the session is doing. -/
def At (nominator : Role) (pids : List PathId) (v : Relay S) (r : Role) (e : Election (Exchange S)) :
    Doing → Prop
  | .listening => v.Votes nominator r e
  | .acting todo winner => v.Stands nominator r e (winner.toList ++ winners todo) ∧
    Relay.Spoken nominator r (winner.toList ++ winners todo) (sends todo)
  | .writing pid write todo winner => (∃ frame, write = .offered frame) ∧ pid ∈ pids ∧
    v.Stands nominator r e (winner.toList ++ winners todo) ∧
    (r = nominator ∨ winner.toList ++ winners todo = [])

/-- A session whose engine is one end of the relay `v`. -/
inductive Side (nominator : Role) (pids : List PathId) (config : Role → Config)
    (order : Role → List PathId) (v : Relay S) (r : Role) : Session (Exchange S) → Prop
  | idle (fresh : Exchange.new S ((config r).setup (order r)) = .ok (v.pair.engine r)) :
      Side nominator pids config order v r Session.idle
  | racing {race : Race} {e : Election (Exchange S)} {doing : Doing} (running : race.Open pids)
      (place : At nominator pids v r e doing) :
      Side nominator pids config order v r ⟨race, .racing e doing⟩
  | connected {race : Race} {w : PathId} {hash : PathHash} (won : race.Won pids w)
      (names : v.Names r w hash) :
      Side nominator pids config order v r ⟨race, .connected (v.pair.engine r) w hash⟩

structure Honest (ak : AuthKey) (nominator : Role) (pids : List PathId) (config : Role → Config)
    (order : Role → List PathId) (d : Duel S) (v : Relay S) : Prop where
  fair : v.Fair ak nominator pids
  empty : v.Empty
  side : ∀ r, Side nominator pids config order v r (d.session r)
  closing : ∀ pid, d.Closed pid →
    ∃ r w hash, (d.session r).result? = some (.ok (w, hash)) ∧ w ≠ pid
  carried : ∀ r, ∀ pid ∈ pids, Carried (d.Closed pid) ((d.race r).Serves pid)
    ((d.session r).arrived pid) (d.queue r pid) (chunksOf pid (d.session r.peer).outgoing)
    (v.flight r.peer pid)

/-! ### The two sides -/

section

variable {v v' : Relay S} {r : Role} {x : Session (Exchange S)}

theorem At.mono {e : Election (Exchange S)} {doing : Doing} (h : At nominator pids v r e doing)
    (same : v'.pair.engine r = v.pair.engine r) (log : v.pair.log ⊆ v'.pair.log) :
    At nominator pids v' r e doing := by
  cases doing with
  | listening => exact Relay.Votes.mono h same log
  | acting => exact ⟨h.1.mono same log, h.2⟩
  | writing => exact ⟨h.1, h.2.1, h.2.2.1.mono same log, h.2.2.2⟩

theorem Side.mono (h : Side nominator pids config order v r x)
    (same : v'.pair.engine r = v.pair.engine r) (log : v.pair.log ⊆ v'.pair.log) :
    Side nominator pids config order v' r x := by
  cases h with
  | idle fresh => exact .idle (same ▸ fresh)
  | racing running place => exact .racing running (place.mono same log)
  | connected won names =>
    rw [← same]
    exact .connected won (by rw [Relay.Names, same]; exact names)

theorem Side.of_racing (h : Side nominator pids config order v r x) {e : Election (Exchange S)}
    {doing : Doing} (state : x.state = .racing e doing) :
    x.race.Open pids ∧ At nominator pids v r e doing := by
  cases h with
  | idle => cases state
  | racing running place =>
    obtain ⟨rfl, rfl⟩ := State.racing.inj state
    exact ⟨running, place⟩
  | connected => cases state

theorem Side.of_result (h : Side nominator pids config order v r x) {w : PathId} {hash : PathHash}
    (result : x.result? = some (.ok (w, hash))) : x.race.Won pids w ∧ v.Names r w hash := by
  cases h with
  | idle | racing => cases result
  | connected won names =>
    obtain ⟨rfl, rfl⟩ := Prod.mk.inj (Except.ok.inj (Option.some.inj result))
    exact ⟨won, names⟩

theorem Side.no_failure (h : Side nominator pids config order v r x) (failure : Failure) :
    x.result? ≠ some (.error failure) := by
  cases h <;> simp [Session.result?, Session.idle]

theorem Side.steady (h : Side nominator pids config order v r x) (busy : x.isIdle = false) :
    x.race.Steady pids := by
  cases h with
  | idle => cases busy
  | racing running => exact running.toSteady
  | connected won => exact won.toSteady

theorem Side.running (h : Side nominator pids config order v r x) : x.race.isHalting = false := by
  cases h with
  | idle => rfl
  | racing running => exact running.toSteady.running
  | connected won => exact won.toSteady.running

theorem Side.serves (h : Side nominator pids config order v r x) (busy : x.isIdle = false)
    {pid : PathId} (hp : pid ∈ pids) (spared : pid ∉ x.race.closes.map Prod.fst) :
    x.race.Serves pid := by
  have owned := (h.steady busy).owned hp spared
  cases h with
  | idle => cases busy
  | racing running => exact (Race.serves_racing running.isRacing pid).2 (List.contains_iff_mem.2 owned)
  | connected won =>
    rw [won.pids] at owned
    obtain rfl := List.mem_singleton.1 owned
    exact won.serves

theorem Side.waiting (h : Side nominator pids config order v r x) (idle : x.isIdle = true) :
    x = Session.idle ∧ Exchange.new S ((config r).setup (order r)) = .ok (v.pair.engine r) := by
  cases h with
  | idle fresh => exact ⟨rfl, fresh⟩
  | racing | connected => cases idle

end

section

variable {d : Duel S} {v : Relay S} {r q : Role} {pid w w' : PathId} {hash hash' : PathHash}

/-! ### The invariant -/

theorem Honest.agree (h : Honest ak nominator pids config order d v)
    (mine : (d.session r).result? = some (.ok (w, hash)))
    (theirs : (d.session q).result? = some (.ok (w', hash'))) : w = w' ∧ hash = hash' :=
  h.fair.agree ((h.side r).of_result mine).2 ((h.side q).of_result theirs).2

theorem Honest.open_of_named (h : Honest ak nominator pids config order d v)
    (named : (v.pair.engine r).nominated = some w) : ¬ d.Closed w := by
  intro closed
  obtain ⟨q, w', hash, result, other⟩ := h.closing w closed
  have named' := h.fair.nominates ((h.side q).of_result result).2.1
  exact other (Option.some.inj (named'.symm.trans (h.fair.nominates named)))

theorem Honest.open_of_unnamed (h : Honest ak nominator pids config order d v)
    (unnamed : (v.pair.engine nominator).nominated = none) (pid : PathId) : ¬ d.Closed pid := by
  intro closed
  obtain ⟨q, w, hash, result, -⟩ := h.closing pid closed
  have named := h.fair.nominates ((h.side q).of_result result).2.1
  rw [unnamed] at named
  cases named

theorem Honest.open_of_idle (h : Honest ak nominator pids config order d v)
    (idle : (d.session r).isIdle = true) (pid : PathId) : ¬ d.Closed pid :=
  h.open_of_unnamed (h.fair.unnamed_of_waiting (Exchange.waiting_new ((h.side r).waiting idle).2)) pid

theorem Honest.owned (h : Honest ak nominator pids config order d v)
    (busy : (d.session r).isIdle = false) (hp : pid ∈ pids) (spared : ¬ d.Closed pid) :
    pid ∈ (d.race r).pids :=
  ((h.side r).steady busy).owned hp fun closed => spared ⟨r, closed⟩

theorem Honest.spared (h : Honest ak nominator pids config order d v)
    (busy : (d.session r).isIdle = false) (closed : d.Closed pid) :
    ∃ q ∈ (d.race r).pids, q ≠ pid := by
  obtain ⟨q, w, hash, result, other⟩ := h.closing pid closed
  have named := ((h.side q).of_result result).2.1
  exact ⟨w, h.owned busy (h.fair.chosen q w named) (h.open_of_named named), other⟩

theorem Honest.sending (h : Honest ak nominator pids config order d v) (r : Role) (hp : pid ∈ pids) :
    Carried (d.Closed pid) ((d.race r.peer).Serves pid) ((d.session r.peer).arrived pid)
      (d.queue r.peer pid) (chunksOf pid (d.session r).outgoing) (v.flight r pid) := by
  have carried := h.carried r.peer pid hp
  rw [Role.peer_peer] at carried
  exact carried

/-! ### One side at a time -/

theorem Honest.put (h : Honest ak nominator pids config order d v) {v' : Relay S}
    {x : Session (Exchange S)} {d' : Duel S} (session : d'.session = Function.update d.session r x)
    (fair : v'.Fair ak nominator pids) (empty : v'.Empty)
    (peer : v'.pair.engine r.peer = v.pair.engine r.peer) (log : v.pair.log ⊆ v'.pair.log)
    (side : Side nominator pids config order v' r x)
    (closes : ∀ pid ∈ x.race.closes.map Prod.fst, d.Closed pid ∨
      ∃ w hash, x.result? = some (.ok (w, hash)) ∧ w ≠ pid)
    (stays : ∀ w hash, (d.session r).result? = some (.ok (w, hash)) → x.result? = some (.ok (w, hash)))
    (mine : ∀ pid ∈ pids, Carried (d'.Closed pid) (x.race.Serves pid) (x.arrived pid) (d'.queue r pid)
      (chunksOf pid (d.session r.peer).outgoing) (v'.flight r.peer pid))
    (theirs : ∀ pid ∈ pids, Carried (d'.Closed pid) ((d.race r.peer).Serves pid)
      ((d.session r.peer).arrived pid) (d'.queue r.peer pid) (chunksOf pid x.outgoing)
      (v'.flight r pid)) : Honest ak nominator pids config order d' v' := by
  have self : d'.session r = x := by rw [session, Function.update_self]
  have other : d'.session r.peer = d.session r.peer := by
    rw [session, Function.update_of_ne (Role.ne_peer r).symm]
  refine ⟨fair, empty, fun q => ?_, fun pid closed => ?_, fun q => ?_⟩
  · rcases Role.eq_or_eq_peer q r with rfl | rfl
    · rw [self]; exact side
    · rw [other]; exact (h.side _).mono peer log
  · -- a session that has won stays where it is
    have won (closed : d.Closed pid) : ∃ q w hash, (d'.session q).result? = some (.ok (w, hash)) ∧
        w ≠ pid := by
      obtain ⟨q, w, hash, result, differs⟩ := h.closing pid closed
      refine ⟨q, w, hash, ?_, differs⟩
      rcases Role.eq_or_eq_peer q r with rfl | rfl
      · rw [self]; exact stays w hash result
      · rw [other]; exact result
    obtain ⟨q, hq⟩ := closed
    rcases Role.eq_or_eq_peer q r with rfl | rfl
    · rw [race, self] at hq
      rcases closes pid hq with closed | ⟨w, hash, result, differs⟩
      · exact won closed
      · exact ⟨q, w, hash, by rw [self]; exact result, differs⟩
    · rw [race, other] at hq
      exact won ⟨_, hq⟩
  · rcases Role.eq_or_eq_peer q r with rfl | rfl
    · rw [race, self, other]; exact mine
    · rw [race, other, Role.peer_peer, self]; exact theirs

theorem put_session (d : Duel S) (r : Role) : d.put r (d.session r) = d := by
  rw [put, Function.update_eq_self]

theorem put_put (d : Duel S) (r : Role) (x y : Session (Exchange S)) :
    (d.put r x).put r y = d.put r y := by simp [put]

theorem closed_put (d : Duel S) (r : Role) {x : Session (Exchange S)}
    (closed : pid ∈ x.race.closes.map Prod.fst) : (d.put r x).Closed pid :=
  ⟨r, by rw [race, session_put_self]; exact closed⟩

theorem closed_mono {d' : Duel S} {x : Session (Exchange S)}
    (session : d'.session = Function.update d.session r x)
    (closes : (d.race r).closes ⊆ x.race.closes) (closed : d.Closed pid) : d'.Closed pid := by
  obtain ⟨q, hq⟩ := closed
  refine ⟨q, ?_⟩
  rcases Role.eq_or_eq_peer q r with rfl | rfl
  · rw [race, session, Function.update_self]
    exact List.map_subset _ closes hq
  · rw [race, session, Function.update_of_ne (Role.ne_peer r).symm]
    exact hq

theorem Honest.still (h : Honest ak nominator pids config order d v) {x : Session (Exchange S)}
    (side : Side nominator pids config order v r x)
    (closes : ∀ pid ∈ x.race.closes.map Prod.fst, d.Closed pid)
    (stay : (d.race r).closes ⊆ x.race.closes)
    (result : ∀ w hash, (d.session r).result? = some (.ok (w, hash)) → x.result? = some (.ok (w, hash)))
    (serves : ∀ pid, x.race.Serves pid → (d.race r).Serves pid)
    (arrived : ∀ pid ∈ pids, ¬ d.Closed pid ∨ x.race.Serves pid →
      x.arrived pid = (d.session r).arrived pid)
    (outgoing : ∀ pid ∈ pids, ¬ d.Closed pid →
      chunksOf pid x.outgoing = chunksOf pid (d.session r).outgoing) :
    Honest ak nominator pids config order (d.put r x) v := by
  have shut (pid : PathId) : d.Closed pid → (d.put r x).Closed pid := closed_mono rfl stay
  refine h.put rfl h.fair h.empty rfl (fun _ he => he) side (fun pid hp => .inl (closes pid hp)) result
    (fun pid hp => ?_) fun pid hp => ?_
  · refine ((h.carried r pid hp).weaken (shut pid) (serves pid)).arriving fun live => ?_
    exact arrived pid hp (live.imp_left fun spared closed => spared (shut pid closed))
  · have before := h.sending r hp
    by_cases closed : d.Closed pid
    · exact (before.of_closed closed).weaken (shut pid) id
    · rw [outgoing pid hp closed]
      exact before.weaken (shut pid) id

/-! ### What a session does -/

theorem isIdle_of_racing {x : Session (Exchange S)} {e : Election (Exchange S)} {doing : Doing}
    (state : x.state = .racing e doing) : x.isIdle = false := by simp [Session.isIdle, state]

theorem result?_of_racing {x : Session (Exchange S)} {e : Election (Exchange S)} {doing : Doing}
    (state : x.state = .racing e doing) (w : PathId) (hash : PathHash) (y : Session (Exchange S))
    (result : x.result? = some (.ok (w, hash))) : y.result? = some (.ok (w, hash)) := by
  simp [Session.result?, state] at result

variable {e : Election (Exchange S)} {doing doing' : Doing} {todo : List Action}
  {winner : Option (PathId × PathHash)}

theorem Honest.turns (h : Honest ak nominator pids config order d v)
    (state : (d.session r).state = .racing e doing) (place : At nominator pids v r e doing')
    (outgoing : (⟨(d.session r).race, .racing e doing'⟩ : Session (Exchange S)).outgoing =
      (d.session r).outgoing) :
    Honest ak nominator pids config order (d.put r ⟨(d.session r).race, .racing e doing'⟩) v :=
  h.still (.racing ((h.side r).of_racing state).1 place) (fun _ closed => ⟨r, closed⟩) (fun _ hc => hc)
    (fun w hash => result?_of_racing state w hash _) (fun _ hs => hs) (fun _ _ _ => rfl)
    fun q _ _ => congrArg (chunksOf q) outgoing

theorem Honest.send (h : Honest ak nominator pids config order d v) {frame : Bytes}
    (state : (d.session r).state = .racing e (.acting (.send pid frame :: todo) winner)) :
    Honest ak nominator pids config order
      (d.put r ((d.session r).act e (.send pid frame :: todo) winner)) v := by
  obtain ⟨running, place⟩ := (h.side r).of_racing state
  have spoken : r = nominator ∨ winner.toList ++ winners todo = [] := by simpa [Relay.Spoken] using place.2
  rcases running.openWrite pid with ⟨owned, opened⟩ | ⟨gone, opened, running'⟩
  · have he : (d.session r).act e (.send pid frame :: todo) winner =
        ⟨(d.session r).race, .racing e (.writing pid (.offered frame) todo winner)⟩ := by
      simp [Session.act, opened]
    rw [he]
    have hp : pid ∈ pids := running.kept.accounted.mem_iff.1 (List.mem_append_right _ owned)
    exact h.turns state ⟨⟨frame, rfl⟩, hp, place.1, spoken⟩ (by simp [Session.outgoing, state])
  · have he : (d.session r).act e (.send pid frame :: todo) winner =
        ⟨{ (d.session r).race with writers := (d.session r).race.writers.erase pid },
          .racing e (.acting todo winner)⟩ := by
      simp [Session.act, opened]
    rw [he]
    refine h.still (.racing running' ⟨place.1, spoken.imp_right .inl⟩)
      (fun _ closed => ⟨r, closed⟩) (fun _ hc => hc)
      (fun w hash => result?_of_racing state w hash _) (fun _ hs => hs) (fun _ _ _ => rfl) ?_
    intro q hq spared
    have other : pid ≠ q := by
      rintro rfl
      exact gone (h.owned (isIdle_of_racing state) hq spared)
    simp [Session.outgoing, state, chunksOf_of_ne other]

theorem Honest.announce (h : Honest ak nominator pids config order d v)
    (state : (d.session r).state = .racing e (.acting (.nominated w hash :: todo) winner)) :
    Honest ak nominator pids config order
      (d.put r ((d.session r).act e (.nominated w hash :: todo) winner)) v := by
  obtain ⟨-, place⟩ := (h.side r).of_racing state
  have alone : winner = none := by
    rcases place.1 with ⟨nobody, -⟩ | ⟨w', hash', one, -⟩
    · simp at nobody
    · cases winner with
      | none => rfl
      | some first => simp at one
  subst alone
  have he : (d.session r).act e (.nominated w hash :: todo) none =
      ⟨(d.session r).race, .racing e (.acting todo (some (w, hash)))⟩ := by
    simp [Session.act]
  rw [he]
  exact h.turns state place (by simp [Session.outgoing, state])

theorem Honest.listens (h : Honest ak nominator pids config order d v)
    (state : (d.session r).state = .racing e (.acting [] none)) :
    Honest ak nominator pids config order (d.put r ((d.session r).act e [] none)) v := by
  obtain ⟨-, place⟩ := (h.side r).of_racing state
  have votes : v.Votes nominator r e := by
    rcases place.1 with ⟨-, votes⟩ | ⟨w, hash, one, -⟩
    · exact votes
    · cases one
  have he : (d.session r).act e [] none = ⟨(d.session r).race, .racing e .listening⟩ := by
    simp [Session.act]
  rw [he]
  exact h.turns state votes (by simp [Session.outgoing, state])

theorem Honest.wins (h : Honest ak nominator pids config order d v)
    (terms : Terms ak nominator pids config order)
    (state : (d.session r).state = .racing e (.acting [] (some (w, hash)))) :
    Honest ak nominator pids config order (d.put r ((d.session r).act e [] (some (w, hash)))) v := by
  obtain ⟨running, place⟩ := (h.side r).of_racing state
  have elects : v.Elects r e w hash := by
    rcases place.1 with ⟨nobody, -⟩ | ⟨w', hash', one, elects⟩
    · cases nobody
    · obtain ⟨rfl, rfl⟩ : w = w' ∧ hash = hash' := by simpa using one
      exact elects
  have spared := h.open_of_named elects.names.1
  have hw := h.fair.chosen r w elects.names.1
  have owned := h.owned (isIdle_of_racing state) hw spared
  obtain ⟨ok, won, closes⟩ := running.nominate owned
  have he : (d.session r).act e [] (some (w, hash)) =
      ⟨((d.session r).race.nominate w).2, .connected (v.pair.engine r) w hash⟩ := by
    rcases hn : (d.session r).race.nominate w with ⟨answer, race'⟩
    rw [hn] at ok
    obtain rfl : answer = .ok () := ok
    simp [Session.act, hn, elects.engine]
  rw [he]
  have side : Side nominator pids config order v r
      ⟨((d.session r).race.nominate w).2, .connected (v.pair.engine r) w hash⟩ :=
    .connected won elects.names
  have shut (pid : PathId) : d.Closed pid →
      (d.put r ⟨((d.session r).race.nominate w).2, .connected (v.pair.engine r) w hash⟩).Closed pid := by
    refine closed_mono rfl ?_
    rw [closes]
    exact List.subset_append_left ..
  refine h.put rfl h.fair h.empty rfl (fun _ hc => hc) side ?_
    (fun w hash => result?_of_racing state w hash _) (fun pid hp => ?_) fun pid hp => ?_
  · intro pid hp
    rw [closes, List.map_append] at hp
    rcases List.mem_append.1 hp with hp | hp
    · exact .inl ⟨r, hp⟩
    · refine .inr ⟨w, hash, rfl, ?_⟩
      obtain ⟨q, hq, rfl⟩ : ∃ q ∈ (d.session r).race.pids.erase w, q = pid := by simpa using hp
      exact (((running.toSteady.nodup terms.distinct).mem_erase_iff.1 hq).1).symm
  · refine ((h.carried r pid hp).weaken (shut pid) fun serves => (running.nominated serves).1).arriving
      fun live => (running.nominated ?_).2
    exact live.elim (fun spared => side.serves rfl hp fun closed => spared (closed_put d r closed)) id
  · have before := h.sending r hp
    have outgoing : (d.session r).outgoing = [] := by simp [Session.outgoing, state]
    rw [outgoing] at before
    exact before.weaken (shut pid) id

/-! ### What a session writes -/

theorem Honest.wrote (h : Honest ak nominator pids config order d v) {frame : Bytes}
    (state : (d.session r).state = .racing e (.writing pid (.offered frame) todo winner)) :
    Honest ak nominator pids config order
      ((d.put r ((d.session r).wrote e pid .ok todo winner)).fill r.peer pid
        (d.queue r.peer pid ++ [frame])) v := by
  obtain ⟨running, -, -, stands, spoken⟩ := (h.side r).of_racing state
  have he : (d.session r).wrote e pid .ok todo winner =
      ⟨(d.session r).race, .racing e (.acting todo winner)⟩ := rfl
  have shut (q : PathId) : d.Closed q → ((d.put r ((d.session r).wrote e pid .ok todo winner)).fill
      r.peer pid (d.queue r.peer pid ++ [frame])).Closed q :=
    closed_mono (x := (d.session r).wrote e pid .ok todo winner) rfl fun _ hc => hc
  refine h.put (x := (d.session r).wrote e pid .ok todo winner) rfl h.fair h.empty rfl (fun _ hc => hc)
    (.racing running ⟨stands, spoken.imp_right .inl⟩) (fun q hq => .inl ⟨r, hq⟩)
    (fun w hash => result?_of_racing state w hash _) (fun q hq => ?_) fun q hq => ?_
  · rw [queue_fill_of_ne _ fun same => Role.ne_peer r same.1]
    exact (h.carried r q hq).weaken (shut q) id
  · have before := h.sending r hq
    refine Carried.weaken ?_ (shut q) id
    by_cases same : pid = q
    · subst same
      rw [queue_fill_self]
      have outgoing : chunksOf pid (d.session r).outgoing = frame :: chunksOf pid (sends todo) := by
        simp [Session.outgoing, state]
      rw [outgoing] at before
      exact before.written
    · rw [queue_fill_of_ne _ fun both => same both.2.symm]
      have outgoing : chunksOf q (d.session r).outgoing = chunksOf q (sends todo) := by
        simp [Session.outgoing, state, chunksOf_of_ne same]
      rw [outgoing] at before
      exact before

theorem Honest.broke (h : Honest ak nominator pids config order d v)
    (terms : Terms ak nominator pids config order) {write : Writing} {fault : PathFault}
    (state : (d.session r).state = .racing e (.writing pid write todo winner)) (closed : d.Closed pid) :
    Honest ak nominator pids config order
      (d.put r ((d.session r).wrote e pid (.failed fault) todo winner)) v := by
  obtain ⟨running, ⟨frame, rfl⟩, -, stands, spoken⟩ := (h.side r).of_racing state
  have running' := running.failWrite terms.distinct (h.spared (isIdle_of_racing state) closed)
  have he : (d.session r).wrote e pid (.failed fault) todo winner =
      ⟨(d.session r).race.failWrite pid, .racing e (.acting todo winner)⟩ := rfl
  have closes : ((d.session r).race.failWrite pid).closes =
      (d.session r).race.closes ++ if pid ∈ (d.session r).race.pids then [(pid, .normal)] else [] :=
    Race.closes_prune ..
  obtain ⟨-, line, slot, consumer⟩ :=
    Race.prune_keeps pid true { (d.session r).race with writers := (d.session r).race.writers.erase pid }
  rw [he]
  refine h.still (.racing running' ⟨stands, spoken.imp_right .inl⟩) (fun q hq => ?_) ?_
    (fun w hash => result?_of_racing state w hash _) (fun q serves => ?_) (fun q _ _ => ?_)
    fun q _ spared => ?_
  · rw [closes, List.map_append] at hq
    rcases List.mem_append.1 hq with hq | hq
    · exact ⟨r, hq⟩
    · split_ifs at hq
      · obtain rfl : q = pid := by simpa using hq
        exact closed
      · cases hq
  · rw [closes]
    exact List.subset_append_left ..
  · exact Race.serves_of_prune
      (r := { (d.session r).race with writers := (d.session r).race.writers.erase pid }) serves
  · exact congrArg₂ (· ++ ·) (Race.front_congr slot consumer q) (congrArg (chunksOf q) line)
  · have other : pid ≠ q := by rintro rfl; exact spared closed
    simp [Session.outgoing, state, chunksOf_of_ne other]

/-! ### What an election answers -/

theorem Honest.answers (h : Honest ak nominator pids config order d v) {x : Session (Exchange S)}
    {theirs : PathId → Bytes} {answer : Except Failure (List Action) × Election (Exchange S)}
    (answers : v.Answers ak nominator pids r theirs answer) (running : x.race.Open pids)
    (silent : (d.session r).outgoing = []) (undecided : ∀ w hash,
      (d.session r).result? ≠ some (.ok (w, hash)))
    (closes : x.race.closes = (d.race r).closes)
    (mine : ∀ pid ∈ pids, Carried (d.Closed pid) (x.race.Serves pid) (x.arrived pid)
      (d.queue r pid) (chunksOf pid (d.session r.peer).outgoing) (theirs pid)) :
    ∃ v', Honest ak nominator pids config order (d.put r (x.perform answer.1 answer.2)) v' := by
  obtain ⟨v', actions, ok, replied, flight, stands, spoken⟩ := answers
  have he : x.perform answer.1 answer.2 = ⟨x.race, .racing answer.2 (.acting actions none)⟩ := by
    rw [ok]; rfl
  rw [he]
  have shut (pid : PathId) : d.Closed pid →
      (d.put r ⟨x.race, .racing answer.2 (.acting actions none)⟩).Closed pid := by
    refine closed_mono rfl ?_
    rw [closes]
    exact List.Subset.refl _
  refine ⟨v', h.put rfl replied.fair replied.empty replied.peer replied.log
    (.racing running ⟨stands, spoken⟩) (fun pid hp => .inl ⟨r, ?_⟩)
    (fun w hash result => (undecided w hash result).elim) (fun pid hp => ?_) fun pid hp => ?_⟩
  · rw [← closes]; exact hp
  · rw [flight]
    exact (mine pid hp).weaken (shut pid) id
  · have before := h.sending r hp
    rw [silent] at before
    rw [replied.sent pid]
    refine Carried.weaken (before.sent fun c hc => ?_) (shut pid) id
    obtain ⟨e, he, rfl⟩ := List.mem_map.1 hc
    exact replied.whole e (List.mem_filter.1 he).1

theorem Honest.connect (h : Honest ak nominator pids config order d v)
    (terms : Terms ak nominator pids config order) (idle : (d.session r).isIdle = true) (now : Nat)
    (s : Entropy) : ∃ v', Honest ak nominator pids config order
      (d.put r ((d.session r).connect (Exchange.new S) (config r) (order r) now s).1) v' := by
  obtain ⟨start, fresh⟩ := (h.side r).waiting idle
  have arranged := terms.arranged r
  have filled : order r ≠ [] := fun none => terms.nonempty (none ▸ arranged).nil_eq.symm
  obtain ⟨race, entered, running, unclosed, slot, line⟩ :=
    Race.open_enter filled (arranged.nodup_iff.2 terms.distinct)
  obtain ⟨answer, s', started, answers⟩ :=
    h.fair.starts h.empty (Exchange.waiting_new fresh) (config r).policy now s
  have he : ((d.session r).connect (Exchange.new S) (config r) (order r) now s).1 =
      Session.perform answer.1 answer.2 ⟨race, .idle⟩ := by
    rw [start]
    simp [Session.connect, Session.idle, entered, fresh, started]
  rw [he]
  refine h.answers (x := ⟨race, .idle⟩) answers (running.perm arranged) (by rw [start]; rfl)
    (fun w hash result => by rw [start] at result; cases result) ?_ fun pid hp => ?_
  · rw [Duel.race, start]; exact unclosed
  · have arrived : (⟨race, .idle⟩ : Session (Exchange S)).arrived pid = (d.session r).arrived pid := by
      have consumer := running.consumer
      rw [start]
      simp [Session.arrived, Race.front, Race.backlogOf, Race.queued, consumer, slot, line, Session.idle,
        Race.idle]
    rw [arrived]
    exact (h.carried r pid hp).of_open (h.open_of_idle idle pid)

theorem Honest.waits (h : Honest ak nominator pids config order d v)
    (state : (d.session r).state = .racing e .listening) (now : Nat) (s : Entropy) :
    ∃ v', Honest ak nominator pids config order (d.put r
      (if e.deadline.any (· ≤ now) then (d.session r).perform
        (e.handle (.deadline (d.race r).pids) now s).1 (e.handle (.deadline (d.race r).pids) now s).2.1
      else d.session r)) v' := by
  obtain ⟨running, votes⟩ := (h.side r).of_racing state
  have votes : v.Votes nominator r e := votes
  have quiet : (d.session r).outgoing = [] := by simp [Session.outgoing, state]
  have undecided (w : PathId) (hash : PathHash) : (d.session r).result? ≠ some (.ok (w, hash)) := by
    simp [Session.result?, state]
  split_ifs with ended
  · have due : e.shortlist.deadline.isSome = true := by
      rw [Election.deadline, if_pos votes.phase] at ended
      exact Option.isSome_of_any ended
    have unnamed : (v.pair.engine nominator).nominated = none := (votes.timed due).1 ▸ votes.unnamed
    have alive (pid : PathId) (hp : pid ∈ pids) : pid ∈ (d.race r).pids :=
      h.owned (isIdle_of_racing state) hp (h.open_of_unnamed unnamed pid)
    obtain ⟨answer, handled, answers⟩ := votes.expires h.fair h.empty due alive now s
    rw [handled]
    exact h.answers answers running quiet undecided rfl fun pid hp => h.carried r pid hp
  · exact ⟨v, by rw [put_session]; exact h⟩

theorem Honest.listen (agrees : S.Agrees) (h : Honest ak nominator pids config order d v)
    (state : (d.session r).state = .racing e .listening) (now : Nat) (s : Entropy) :
    ∃ v', Honest ak nominator pids config order (d.put r ((d.session r).listen e now s).1) v' := by
  obtain ⟨running, place⟩ := (h.side r).of_racing state
  have votes : v.Votes nominator r e := place
  obtain ⟨running', ⟨-, received⟩ | ⟨p, data, slot, received⟩⟩ := running.receive
  · have he : ((d.session r).listen e now s).1 = (if e.deadline.any (· ≤ now) then
        (d.session r).perform (e.handle (.deadline (d.race r).pids) now s).1
          (e.handle (.deadline (d.race r).pids) now s).2.1 else d.session r) := by
      simp only [Session.listen, received]
      split_ifs <;> rfl
    rw [he]
    exact h.waits state now s
  -- the session without what was in its slot
  let x : Session (Exchange S) := ⟨(d.session r).race.receive.2, .racing e .listening⟩
  have side : Side nominator pids config order v r x := .racing running' place
  have hx : x = { d.session r with race := { (d.session r).race with slot := none } } := by
    simp only [x, received, state]
  have closes : x.race.closes = (d.race r).closes := by
    show (d.session r).race.receive.2.closes = _
    rw [received]; rfl
  have same : x.race.pids = (d.race r).pids := by
    show (d.session r).race.receive.2.pids = _
    rw [received]; rfl
  have serves (pid : PathId) : x.race.Serves pid → (d.race r).Serves pid :=
    fun serves => (running.received slot serves).1
  have arrived (pid : PathId) (hp : pid ∈ pids) (live : ¬ d.Closed pid ∨ x.race.Serves pid) :
      (d.session r).arrived pid =
        (if p ∈ (d.race r).pids then chunksOf pid [(p, data)] else []) ++ x.arrived pid :=
    (running.received slot (live.elim (fun spared => side.serves rfl hp fun closed =>
      spared ⟨r, by rw [← closes]; exact closed⟩) id)).2
  by_cases owned : p ∈ (d.race r).pids
  · have hp : p ∈ pids := running.kept.accounted.mem_iff.1 (List.mem_append_right _ owned)
    have served : x.race.Serves p :=
      (Race.serves_racing running'.isRacing p).2 (List.contains_iff_mem.2 (same.symm ▸ owned))
    have first := arrived p hp (.inr served)
    rw [if_pos owned, chunksOf_self, chunksOf_nil] at first
    have before := h.carried r p hp
    rw [first] at before
    obtain ⟨whole, rest, arrives, after⟩ := before.heard (.inr (serves p served))
    obtain ⟨answer, s', handled, answers⟩ := votes.hears agrees h.fair h.empty hp whole arrives now s
    have he : ((d.session r).listen e now s).1 = x.perform answer.1 answer.2 := by
      have owns : (d.session r).race.owns p = true := List.contains_iff_mem.2 owned
      simp only [Session.listen, received, owns, if_true, handled]
      rw [hx]
    rw [he]
    refine h.answers answers running' (by simp [Session.outgoing, state])
      (fun w hash result => by simp [Session.result?, state] at result) closes fun pid hpid => ?_
    by_cases other : pid = p
    · subst other
      rw [Function.update_self]
      exact after.weaken id (serves pid)
    · rw [Function.update_of_ne other]
      refine ((h.carried r pid hpid).weaken id (serves pid)).arriving fun live => ?_
      rw [arrived pid hpid live, if_pos owned, chunksOf_of_ne (Ne.symm other), chunksOf_nil,
        List.nil_append]
  · have pauses : Honest ak nominator pids config order (d.put r x) v := by
      refine h.still side (fun pid hp => ⟨r, by rw [← closes]; exact hp⟩)
        (fun _ hc => by rw [closes]; exact hc) (fun w hash => result?_of_racing state w hash _) serves
        (fun pid hp live => ?_) fun pid _ _ => ?_
      · rw [arrived pid hp live, if_neg owned, List.nil_append]
      · simp [Session.outgoing, state, x]
    obtain ⟨v', waits⟩ := pauses.waits (r := r) (e := e) (by rw [session_put_self]) now s
    refine ⟨v', ?_⟩
    have table : (d.put r x).race r = { (d.session r).race with slot := none } := by
      rw [race, session_put_self, hx]
    rw [put_put, session_put_self, table] at waits
    convert waits using 2
    have owns : (d.session r).race.owns p = false := by
      simpa [Race.owns] using (show p ∉ (d.session r).race.pids from owned)
    simp only [Session.listen, received, owns, Bool.false_eq_true, if_false]
    rw [← hx]
    split_ifs <;> rfl

/-! ### What a pump does -/

theorem Side.pump {x : Session (Exchange S)} (h : Side nominator pids config order v r x)
    (distinct : pids.Nodup) (busy : x.isIdle = false) {item : Option Inbound}
    (spares : x.race.Spares pid item) :
    Side nominator pids config order v r { x with race := x.race.after (.pump pid item) } := by
  cases h with
  | idle => cases busy
  | racing running place => exact .racing (running.pump distinct spares) place
  | connected won names => exact .connected (won.pump distinct spares) names

theorem Honest.flows (h : Honest ak nominator pids config order d v)
    (terms : Terms ak nominator pids config order) {item : Option Inbound}
    (busy : (d.session r).isIdle = false) (lost : ∀ i ∈ item, i.isLast = true → d.Closed pid)
    {d' : Duel S} (session : d'.session = (d.onRace r (.pump pid item)).session)
    (theirs : ∀ q ∈ pids, d'.queue r.peer q = d.queue r.peer q)
    (mine : ∀ q ∈ pids, Carried (d.Closed q) (((d.race r).after (.pump pid item)).Serves q)
      ((d.session r).arrived q ++ chunksOf q ((d.race r).inflow (.pump pid item))) (d'.queue r q)
      (chunksOf q (d.session r.peer).outgoing) (v.flight r.peer q)) :
    Honest ak nominator pids config order d' v := by
  have spares : (d.race r).Spares pid item := fun i hi last => h.spared busy (lost i hi last)
  have side := (h.side r).pump terms.distinct busy spares
  have steady : (d.race r).Steady pids := (h.side r).steady busy
  have closes (q : PathId) (hq : q ∈ ((d.race r).after (.pump pid item)).closes.map Prod.fst) :
      d.Closed q := by
    rcases Race.closes_after_pump (d.race r) pid item q hq with closed | ⟨rfl, i, hi, last⟩
    · exact ⟨r, closed⟩
    · exact lost i hi last
  have shut (q : PathId) : d.Closed q → d'.Closed q :=
    closed_mono session (Race.closes_grow_pump ..).subset
  refine h.put session h.fair h.empty rfl (fun _ hc => hc) side (fun q hq => .inl (closes q hq))
    (fun w hash result => result) (fun q hq => ?_) fun q hq => ?_
  · refine ((mine q hq).weaken (shut q) id).arriving fun live => ?_
    have serves : ((d.race r).after (.pump pid item)).Serves q :=
      live.elim (fun spared => side.serves busy hq fun closed => spared (shut q (closes q closed))) id
    exact (steady.flow serves).2
  · rw [theirs q hq]
    exact (h.sending r hq).weaken (shut q) id

theorem Honest.pump (h : Honest ak nominator pids config order d v)
    (terms : Terms ak nominator pids config order) {item : Option Inbound}
    (last : ∀ i ∈ item, i = .ended ∧ d.Closed pid) :
    Honest ak nominator pids config order (d.onRace r (.pump pid item)) v := by
  cases busy : (d.session r).isIdle with
  | true =>
    obtain ⟨start, -⟩ := (h.side r).waiting busy
    have still : d.onRace r (.pump pid item) = d.put r (d.session r) := by
      rw [onRace, race, start]
      rfl
    rw [still, put_session]
    exact h
  | false =>
    refine h.flows terms busy (fun i hi _ => (last i hi).2) rfl (fun _ _ => rfl) fun q hq => ?_
    have nothing : (d.race r).inflow (.pump pid item) = [] := by
      cases item with
      | none => rfl
      | some i =>
        obtain ⟨rfl, -⟩ := last i rfl
        simp only [Race.inflow, Race.taken]
        split_ifs <;> rfl
    rw [nothing, chunksOf_nil, List.append_nil]
    exact (h.carried r q hq).weaken id fun serves => (((h.side r).steady busy).flow serves).1

theorem Honest.took (h : Honest ak nominator pids config order d v)
    (terms : Terms ak nominator pids config order) {chunk : Bytes} {rest : List Bytes}
    (reading : (d.race r).isReading pid = true) (spared : ¬ d.Closed pid)
    (waiting : d.queue r pid = chunk :: rest) : Honest ak nominator pids config order
      ((d.onRace r (.pump pid (some (.chunk chunk)))).fill r pid rest) v := by
  have busy : (d.session r).isIdle = false := by
    by_contra idle
    obtain ⟨start, -⟩ := (h.side r).waiting (by simpa using idle)
    simp [race, start, Session.idle, Race.idle, Race.isReading] at reading
  have taken : (d.race r).inflow (.pump pid (some (.chunk chunk))) = [(pid, chunk)] := by
    simp [Race.inflow, Race.taken, reading, Race.chunkIn]
  have lost : ∀ i ∈ some (Inbound.chunk chunk), i.isLast = true → d.Closed pid := by
    rintro i ⟨⟩ last
    cases last
  refine h.flows terms busy lost rfl (fun q hq => ?_) fun q hq => ?_
  · exact queue_fill_of_ne _ (fun same => Role.ne_peer r same.1.symm) rest
  · rw [taken]
    by_cases same : pid = q
    · subst same
      have before := h.carried r pid hq
      rw [waiting] at before
      rw [queue_fill_self, chunksOf_self, chunksOf_nil]
      exact before.taken spared
    · rw [queue_fill_of_ne _ fun both => same both.2.symm, chunksOf_of_ne same, chunksOf_nil,
        List.append_nil]
      exact (h.carried r q hq).weaken id fun serves => (((h.side r).steady busy).flow serves).1

/-! ### Whole duels -/

/-- The engine does not depend on the order in which its paths are given. -/
theorem new_of_perm {l k : List PathId} (same : l.Perm k) (role : Role) (nominates : Bool) :
    Exchange.new S ⟨role, nominates, ak, l⟩ = Exchange.new S ⟨role, nominates, ak, k⟩ := by
  have perm := (List.mergeSort_perm l (· ≤ ·)).trans (same.trans (List.mergeSort_perm k (· ≤ ·)).symm)
  have sorted : l.mergeSort (· ≤ ·) = k.mergeSort (· ≤ ·) :=
    perm.eq_of_pairwise' (List.pairwise_mergeSort' (· ≤ ·) l) (List.pairwise_mergeSort' (· ≤ ·) k)
  have empty : l = [] ↔ k = [] := by
    rw [← List.length_eq_zero_iff, ← List.length_eq_zero_iff, same.length_eq]
  simp only [Exchange.new, sorted, same.nodup_iff, empty]

def fresh (S : Suite) : Duel S := ⟨fun _ => Session.idle, fun _ _ => []⟩

theorem honest_fresh (terms : Terms ak nominator pids config order) :
    ∃ v, Honest ak nominator pids config order (fresh S) v := by
  have made (r : Role) : ∃ x : Exchange S, Exchange.new S ((config r).setup (order r)) = .ok x ∧
      Exchange.new S ⟨r, r == nominator, ak, pids⟩ = .ok x := by
    rw [terms.setup r, new_of_perm (terms.arranged r)]
    simp [Exchange.new, terms.nonempty, terms.distinct]
  choose engine own shared using made
  refine ⟨⟨⟨engine, []⟩, fun _ _ => []⟩, Relay.fair_met ⟨⟨shared, rfl⟩, fun _ _ => rfl⟩, ?_,
    fun r => .idle (own r), ?_, ?_⟩
  · intro r pid s hs
    rw [(Exchange.waiting_new (own r)).fresh pid s hs]
    rfl
  · rintro pid ⟨r, hc⟩
    cases hc
  · intro r pid _ _
    exact ⟨[], fun _ => rfl, fun _ none => absurd none List.not_mem_nil, rfl⟩

theorem Honest.step (agrees : S.Agrees) (terms : Terms ak nominator pids config order)
    (h : Honest ak nominator pids config order d v) {d' : Duel S} (step : Step config order d d') :
    ∃ v', Honest ak nominator pids config order d' v' := by
  cases step with
  | connect idle => exact h.connect terms idle _ _
  | @act r e todo winner state =>
    rcases todo with _ | ⟨_ | _, rest⟩
    · rcases winner with _ | ⟨w, hash⟩
      · exact ⟨v, h.listens state⟩
      · exact ⟨v, h.wins terms state⟩
    · exact ⟨v, h.send state⟩
    · exact ⟨v, h.announce state⟩
  | wrote state => exact ⟨v, h.wrote state⟩
  | broke state closed => exact ⟨v, h.broke terms state closed⟩
  | listen state => exact h.listen agrees state _ _
  | took reading spared waiting => exact ⟨v, h.took terms reading spared waiting⟩
  | ended closed => exact ⟨v, h.pump terms fun i hi => ⟨(Option.some.inj hi).symm, closed⟩⟩
  | pumped => exact ⟨v, h.pump terms nofun⟩

end

end Duel

end PathRace
