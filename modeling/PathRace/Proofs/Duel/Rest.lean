import PathRace.Proofs.Duel.Honest

/-! Absence of deadlock: a duel in which no move is enabled is decided (`Honest.rest`). A path never
holds more than two frames for one end (`Joint.short`), so no write waits for room, and two
sessions that both listen still have something to hear. -/

namespace PathRace

/-- At most two frames are in flight towards one end of a path. -/
theorem Pair.Joint.short {S : Suite} {ak : AuthKey} {nominator : Role} {pid : PathId}
    {stage : Role → Stage} {pending : Role → Bytes} (h : Joint S ak nominator pid stage pending)
    (r : Role) : ∃ frames : List Bytes, frames.length ≤ 2 ∧ (∀ c ∈ frames, Frame.Whole c) ∧
      frames.flatten = pending r := by
  have nothing (quiet : pending r = []) : ∃ frames : List Bytes, frames.length ≤ 2 ∧
      (∀ c ∈ frames, Frame.Whole c) ∧ frames.flatten = pending r :=
    ⟨[], by simp, nofun, quiet.symm⟩
  have one {l : Lane} {m : Message} (fits : Lane.Fits m) (he : pending r = l.framed S m) :
      ∃ frames : List Bytes, frames.length ≤ 2 ∧ (∀ c ∈ frames, Frame.Whole c) ∧
        frames.flatten = pending r :=
    ⟨[l.framed S m], by simp, by simp [Lane.whole_framed fits], by simp [he]⟩
  cases h with
  | greeted hi hr pi pr =>
    cases r with
    | initiator => exact one (Lane.fits_hello ..) pi
    | responder => exact nothing pr
  | answered a hi hr pi pr =>
    cases r with
    | initiator => exact nothing pi
    | responder => exact one (Lane.fits_authHello ..) pr
  | proven a hi hr pi pr =>
    cases r with
    | initiator => exact one (Lane.fits_auth ..) pi
    | responder => exact nothing pr
  | ready a stages quiet => exact nothing (quiet r)
  | ahead a hn hi hr pi pr =>
    cases r with
    | responder => exact nothing pr
    | initiator =>
      refine ⟨[(a.lane ak pid .responder).framed S (.auth (a.challenge .initiator)),
        (a.ready ak pid .responder).tx.framed S .nominate], le_refl 2, ?_, by simp [pi]⟩
      simp [Lane.whole_framed (Lane.fits_auth ..), Lane.whole_framed Lane.fits_nominate]
  | called a mine theirs pn pp =>
    rcases Role.eq_or_eq_peer r nominator with rfl | rfl
    · exact nothing pn
    · exact one Lane.fits_nominate pp
  | settled a mine theirs quiet => exact nothing (quiet r)

namespace Relay

variable {S : Suite} {ak : AuthKey} {nominator : Role} {pids : List PathId} {v : Relay S} {r : Role}
  {pid : PathId}

theorem Fair.short (fair : v.Fair ak nominator pids) (empty : v.Empty) (hp : pid ∈ pids)
    (reached : (v.pair.engine r).nominated = none ∨ (v.pair.engine r).nominated = some pid)
    {frames : List Bytes} (whole : ∀ c ∈ frames, Frame.Whole c)
    (carried : frames.flatten = v.flight r.peer pid) : frames.length ≤ 2 := by
  obtain ⟨strand, hl⟩ := fair.linked pid hp
  obtain ⟨s, hs⟩ := fair.reach r pid hp reached
  have inbox : (strand r).inbox = Reassembly.empty := by
    rw [← hl.shown r s hs]
    exact empty r pid s hs
  have pending : v.pending pid strand r = frames.flatten := by
    rw [Relay.pending, inbox, carried]
    rfl
  rcases hl.point with ⟨-, waiting⟩ | ⟨-, joint⟩
  · have nothing : frames.flatten = ([] : List Bytes).flatten := pending.symm.trans (waiting r).2
    rw [Frame.flatten_inj whole (List.forall_mem_nil _) nothing]
    exact Nat.zero_le 2
  · obtain ⟨known, length, each, all⟩ := joint.short r
    rw [Frame.flatten_inj whole each (pending.symm.trans all.symm)]
    exact length

theorem Empty.drained (empty : v.Empty) {s : Strand} (hs : (v.pair.engine r).strand? pid = some s)
    (arrived : v.flight r.peer pid = []) : v.Drained r pid := by
  refine ⟨arrived, ?_⟩
  rw [Exchange.buffered_of_strand? hs, empty r pid s hs]
  rfl

end Relay

namespace Duel

variable {S : Suite} {ak : AuthKey} {nominator : Role} {pids : List PathId} {config : Role → Config}
  {order : Role → List PathId} {d : Duel S} {v : Relay S} {r : Role} {pid : PathId}
  {e : Election (Exchange S)} {write : Writing} {todo : List Action}
  {winner : Option (PathId × PathHash)}

/-- Both sessions have started, and no step is enabled now or later. -/
structure Resting (pids : List PathId) (d : Duel S) : Prop where
  begun : ∀ r, (d.session r).isIdle = false
  acts : ∀ r e todo winner, (d.session r).state ≠ .racing e (.acting todo winner)
  writes : ∀ r e write todo winner, ∀ pid ∈ pids,
    (d.session r).state = .racing e (.writing pid write todo winner) →
    ¬ d.Closed pid ∧ d.queue r.peer pid ≠ []
  listens : ∀ r e, (d.session r).state = .racing e .listening →
    (d.race r).slot = none ∧ e.deadline = none
  reads : ∀ r, ∀ pid ∈ pids, pid ∈ (d.race r).reading → ¬ d.Closed pid → d.queue r pid = []
  grants : ∀ r, ∀ pid ∈ pids, (d.race r).canGrant pid = false

/-- If a write still waits at rest, the peer has nominated another path. Otherwise the path and its pump
would both be full, which takes more frames than can be in flight. -/
theorem Honest.refused (h : Honest ak nominator pids config order d v) (rest : d.Resting pids)
    (state : (d.session r).state = .racing e (.writing pid write todo winner)) :
    ∃ w, (v.pair.engine r.peer).nominated = some w ∧ w ≠ pid := by
  obtain ⟨-, ⟨frame, rfl⟩, hp, -, -⟩ := (h.side r).of_racing state
  obtain ⟨spared, full⟩ := rest.writes r e _ todo winner pid hp state
  by_contra taken
  have reached : (v.pair.engine r.peer).nominated = none ∨
      (v.pair.engine r.peer).nominated = some pid := by
    cases named : (v.pair.engine r.peer).nominated with
    | none => exact .inl rfl
    | some w => exact .inr (congrArg some (not_not.1 fun other => taken ⟨w, named, other⟩))
  have busy := rest.begun r.peer
  have line : (d.race r.peer).queued pid ≠ [] := by
    have placed := ((h.side r.peer).steady busy).placed pid (h.owned busy hp spared)
    rcases List.mem_append.1 placed with reading | line
    · exact (full (rest.reads r.peer pid hp reading spared)).elim
    · intro none
      obtain ⟨⟨q, data⟩, he, rfl⟩ := List.mem_map.1 line
      have held : data ∈ chunksOf q (d.session r.peer).race.line :=
        List.mem_map.2 ⟨(q, data), List.mem_filter.2 ⟨he, by simp⟩, rfl⟩
      rw [show chunksOf q (d.session r.peer).race.line = [] from none] at held
      cases held
  obtain ⟨way, place, whole, all⟩ := h.carried r.peer pid hp (.inl spared)
  have few := h.fair.short h.empty hp reached whole all
  rw [place spared, Role.peer_peer] at few
  have sends : chunksOf pid (d.session r).outgoing = frame :: chunksOf pid (sends todo) := by
    simp [Session.outgoing, state]
  have before := List.length_pos_iff.2 line
  have between := List.length_pos_iff.2 full
  simp only [Session.arrived, sends, List.length_append, List.length_cons] at few
  have before : 0 < ((d.session r.peer).race.queued pid).length := before
  omega

/-- At rest, a session listens, waits for a write, or has its result. -/
theorem Honest.stuck (h : Honest ak nominator pids config order d v) (rest : d.Resting pids) (r : Role) :
    (∃ e, (d.session r).state = .racing e .listening) ∨
    (∃ e pid write todo winner, (d.session r).state = .racing e (.writing pid write todo winner)) ∨
    ∃ w hash, (d.session r).result? = some (.ok (w, hash)) := by
  have side := h.side r
  have busy := rest.begun r
  have acts := rest.acts r
  generalize d.session r = x at side busy acts
  cases side with
  | idle => cases busy
  | @racing race e doing =>
    cases doing with
    | acting todo winner => exact (acts e todo winner rfl).elim
    | writing pid write todo winner => exact .inr (.inl ⟨e, pid, write, todo, winner, rfl⟩)
    | listening => exact .inl ⟨e, rfl⟩
  | connected => exact .inr (.inr ⟨_, _, rfl⟩)

theorem Honest.votes (h : Honest ak nominator pids config order d v)
    (state : (d.session r).state = .racing e .listening) : v.Votes nominator r e :=
  ((h.side r).of_racing state).2

theorem Honest.not_writing (h : Honest ak nominator pids config order d v) (rest : d.Resting pids) :
    (d.session r).state ≠ .racing e (.writing pid write todo winner) := by
  intro state
  obtain ⟨w, named, other⟩ := h.refused rest state
  obtain ⟨-, -, hp, stands, spoken⟩ := (h.side r).of_racing state
  rcases h.stuck rest r.peer with ⟨e', state'⟩ | ⟨e', pid', write', todo', winner', state'⟩ |
    ⟨w', hash, result⟩
  · rw [(h.votes state').unnamed] at named
    cases named
  · -- of the two that write, the one that does not nominate has not been told of a winner
    obtain ⟨-, -, -, stands', spoken'⟩ := (h.side r.peer).of_racing state'
    have nominates : r.peer = nominator := by
      refine spoken'.resolve_right fun nobody => ?_
      rcases stands' with ⟨-, votes⟩ | ⟨_, _, one, -⟩
      · rw [votes.unnamed] at named; cases named
      · rw [nobody] at one; cases one
    have nobody := spoken.resolve_left fun both => Role.ne_peer r (both.trans nominates.symm)
    have unnamed : (v.pair.engine r).nominated = none := by
      rcases stands with ⟨-, votes⟩ | ⟨_, _, one, -⟩
      · exact votes.unnamed
      · rw [nobody] at one; cases one
    obtain ⟨w', named', -⟩ := h.refused rest state'
    rw [Role.peer_peer, unnamed] at named'
    cases named'
  · obtain ⟨won, names⟩ := (h.side r.peer).of_result result
    obtain rfl := Option.some.inj (named.symm.trans names.1)
    have owned := h.owned (rest.begun r.peer) hp (rest.writes r e write todo winner pid hp state).1
    have alone : pid ∈ [w] := won.pids ▸ owned
    exact other (List.mem_singleton.1 alone).symm

theorem outgoing_of_result {x : Session (Exchange S)} {answer : Except Failure (PathId × PathHash)}
    (result : x.result? = some answer) : x.outgoing = [] := by
  obtain ⟨race, state⟩ := x
  cases state with
  | racing => cases result
  | idle | connected | failed => rfl

/-- A session that listens at rest has taken all frames sent on paths that are open. -/
theorem Honest.drained (h : Honest ak nominator pids config order d v) (rest : d.Resting pids)
    (state : (d.session r).state = .racing e .listening)
    (quiet : (d.session r.peer).outgoing = []) (hp : pid ∈ pids) (spared : ¬ d.Closed pid) :
    v.Drained r pid := by
  obtain ⟨running, place⟩ := (h.side r).of_racing state
  have votes : v.Votes nominator r e := place
  have slot : (d.session r).race.slot = none := (rest.listens r e state).1
  have line : (d.session r).race.line = [] := by
    cases hl : (d.session r).race.line with
    | nil => rfl
    | cons first others =>
      have known : first.1 ∈ pids :=
        running.within _ (List.mem_append_right _ (by rw [hl]; exact List.mem_cons_self ..))
      have stays := rest.grants r first.1 known
      have consumes : (d.session r).race.consumes = true := by simp [Race.consumes, running.consumer]
      simp [Race.canGrant, race, hl, consumes, slot] at stays
  have owned := h.owned (isIdle_of_racing state) hp spared
  have reading : pid ∈ (d.session r).race.reading := by
    simpa [Race.places, line] using running.placed pid owned
  have empty := rest.reads r pid hp reading spared
  have arrived : (d.session r).arrived pid = [] := by
    have backlog : (d.session r).race.backlogOf pid = [] := Race.backlogOf_racing running.isRacing pid
    simp [Session.arrived, Race.front, Race.queued, backlog, slot, line]
  obtain ⟨way, place, -, all⟩ := h.carried r pid hp (.inl spared)
  rw [place spared, arrived, empty, quiet] at all
  obtain ⟨s, hs⟩ := h.fair.reach r pid hp (.inl votes.unnamed)
  exact h.empty.drained hs all.symm

/-- The sessions cannot both listen at rest: the nominator would have a ready path and a deadline. -/
theorem Honest.not_both_listening (h : Honest ak nominator pids config order d v)
    (terms : Terms ak nominator pids config order) (rest : d.Resting pids)
    {e : Role → Election (Exchange S)} (state : ∀ r, (d.session r).state = .racing (e r) .listening) :
    False := by
  have votes (r : Role) := h.votes (state r)
  obtain ⟨pid, hp⟩ := List.exists_mem_of_ne_nil _ terms.nonempty
  have spared : ¬ d.Closed pid := h.open_of_unnamed (votes nominator).unnamed pid
  have drained (r : Role) : v.Drained r pid :=
    h.drained rest (state r) (by simp [Session.outgoing, state]) hp spared
  obtain ⟨t, ready⟩ := h.fair.ready hp (votes .responder).started (votes nominator).unnamed drained
  obtain ⟨⟨inbox, hs⟩, -⟩ := ready nominator
  have due := (votes nominator).waits rfl pid ⟨inbox, _, hs⟩
  have never := (rest.listens nominator (e nominator) (state nominator)).2
  rw [Election.deadline, if_pos (votes nominator).phase] at never
  rw [never] at due
  cases due

/-- At rest both sessions have won, with the same path and hash. -/
theorem Honest.rest (h : Honest ak nominator pids config order d v)
    (terms : Terms ak nominator pids config order) (rest : d.Resting pids) :
    ∃ w hash, ∀ r, (d.session r).result? = some (.ok (w, hash)) := by
  have settled (r : Role) : (∃ e, (d.session r).state = .racing e .listening) ∨
      ∃ w hash, (d.session r).result? = some (.ok (w, hash)) := by
    rcases h.stuck rest r with listens | ⟨e, pid, write, todo, winner, state⟩ | won
    · exact .inl listens
    · exact (h.not_writing rest state).elim
    · exact .inr won
  rcases settled nominator with ⟨e, state⟩ | ⟨w, hash, result⟩ <;>
    rcases settled nominator.peer with ⟨e', state'⟩ | ⟨w', hash', result'⟩
  · exfalso
    refine h.not_both_listening terms rest (e := fun r => if r = nominator then e else e') fun r => ?_
    rcases Role.eq_or_eq_peer r nominator with rfl | rfl
    · rw [if_pos rfl]; exact state
    · rw [if_neg (Role.ne_peer nominator).symm]; exact state'
  · have named := h.fair.follows ((h.side nominator.peer).of_result result').2.1
    rw [(h.votes state).unnamed] at named
    cases named
  · -- the nomination has arrived, so it has been heard
    have named := ((h.side nominator).of_result result).2.1
    have quiet : (d.session nominator.peer.peer).outgoing = [] := by
      rw [Role.peer_peer]
      exact outgoing_of_result result
    have drained := h.drained rest state' quiet (h.fair.chosen nominator w named)
      (h.open_of_named named)
    obtain ⟨hash', nominated⟩ := h.fair.nominated named drained
    have follows := (nominated nominator.peer).1
    rw [(h.votes state').unnamed] at follows
    cases follows
  · obtain ⟨rfl, rfl⟩ := h.agree result result'
    refine ⟨w, hash, fun r => ?_⟩
    rcases Role.eq_or_eq_peer r nominator with rfl | rfl
    · exact result
    · exact result'

end Duel

end PathRace
