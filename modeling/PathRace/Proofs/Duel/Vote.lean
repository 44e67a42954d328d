import PathRace.Proofs.Election.Contract
import PathRace.Proofs.Election.WinnerTakesAll
import PathRace.Proofs.Pair.Handshake
import PathRace.Proofs.Race.Flow

/-! An election over one end of an honest network, fed one frame of the peer at a time. It never fails
(`Votes.hears`, `Votes.expires`): after each frame it is still open, or its engine has nominated a path
and the election announces that path. A nominator with a ready path waits only for its window to end. -/

namespace PathRace

theorem Lane.whole_framed {S : Suite} {m : Message} (fits : Lane.Fits m) (l : Lane) :
    Frame.Whole (l.framed S m) := by
  have length : (S.encrypt l.key l.nonce m.encode).length = m.encode.length + Limit.tagSize :=
    S.length_encrypt ..
  exact ⟨_, length.trans_le fits, by rw [Lane.framed, length]⟩

theorem Exchange.Greets.whole {S : Suite} {d : Device} {now : Nat} {l strands : List (PathId × Strand)}
    {frames : List (PathId × Bytes)} {used : List Sealing} (h : Greets S d now l frames strands used) :
    ∀ e ∈ frames, Frame.Whole e.2 := by
  induction h with
  | nil => exact fun e he => (List.not_mem_nil he).elim
  | cons secret challenge tail ih =>
    intro e he
    rcases List.mem_cons.1 he with rfl | he
    · exact Lane.whole_framed (Lane.fits_hello ..) _
    · exact ih e he

theorem Device.Advance.whole {S : Suite} {d : Device} {pid : PathId} {now : Nat} {c : Bytes}
    {stage stage' : Stage} {o : Outcome} {used : List Sealing}
    (h : Advance S d pid now c stage stage' o used) :
    ∀ e ∈ o.out.toList.map (pid, ·), Frame.Whole e.2 := by
  cases h with
  | answered => simp [Outcome.frame, Lane.whole_framed (Lane.fits_authHello ..)]
  | proven => simp [Outcome.frame, Outcome.adding, Lane.whole_framed (Lane.fits_auth ..)]
  | confirmed | nominated | carried => simp [Outcome.news, Outcome.data, Outcome.none]

theorem Exchange.Turned.trans {S : Suite} {x x₁ x₂ : Exchange S} {pid : PathId} {old mid new : Strand}
    {used more : List Sealing} (t : Turned x x₁ pid old mid used) (u : Turned x₁ x₂ pid mid new more)
    (waits : mid.stage.isNominated = false) : Turned x x₂ pid old new (more ++ used) where
  device := u.device.trans t.device
  started := u.started.trans t.started
  used := by rw [u.used, t.used, List.append_assoc]
  before := t.before
  after := u.after
  others q hq := by rw [u.others q hq, t.others q hq, waits, if_neg Bool.false_ne_true]
  nominated := by rw [u.nominated, t.nominated, waits, if_neg Bool.false_ne_true]

theorem Pair.set_set {S : Suite} (w : Pair S) (r : Role) (x y : Exchange S)
    (ys : List (PathId × Outcome)) : (w.set r x []).set r y ys = w.set r y ys := by
  simp [set]

/-- A complete frame that the device accepts yields an outcome. -/
theorem Exchange.processFrame_of_whole {S : Suite} {x : Exchange S} {pid : PathId} {inbox : Reassembly}
    {stage : Stage} (hs : x.strand? pid = some ⟨inbox, stage⟩) (whole : Frame.Whole inbox.buffer)
    {now : Nat} {s : Entropy} {ys : List (PathId × Outcome)}
    (ok : (x.call (.processFrame pid now s)).1 = .ok ys) :
    ∃ o x' s', Engine.processFrame pid now x s = (.ok (some o), x', s') := by
  obtain ⟨body, next⟩ := Frame.next_of_whole whole
  simp only [call, processFrame, hs, next] at ok
  simp only [Engine.processFrame, processFrame, hs, next]
  rcases hr : (x.device.step S pid now stage body s).result with fault | ⟨stage', o⟩
  · simp [hr, Except.map] at ok
  · exact ⟨o, _, _, rfl⟩

theorem Exchange.whole_initialFrames {S : Suite} {x x' : Exchange S} {now : Nat} {s s' : Entropy}
    {frames : List (PathId × Bytes)} (h : Engine.initialFrames now x s = (.ok frames, x', s')) :
    ∀ e ∈ frames, Frame.Whole e.2 := by
  have h : x.initialFrames now s = (.ok frames, x', s') := h
  unfold initialFrames at h
  split_ifs at h
  · simp at h
  · cases hr : x.device.role with
    | initiator =>
      obtain rfl : frames = [] := by simp [hr] at h; exact h.1
      simp
    | responder =>
      obtain ⟨greeted, strands, used, s'', hg, greets⟩ := greets (S := S) x.device now x.strands s
      obtain rfl : greeted = frames := by simp [hr, hg] at h; exact h.1
      exact greets.whole

namespace Shortlist

theorem choose_of_mem {qualifies : PathId → Bool} {l : Shortlist} (unasked : l.requested = none)
    {c : PathId × Nat} (hc : c ∈ l.candidates) (hq : qualifies c.1 = true) :
    ∃ chosen, (l.choose qualifies).1 = some chosen := by
  have hm : c ∈ l.candidates.filter fun c => qualifies c.1 := List.mem_filter.2 ⟨hc, hq⟩
  obtain ⟨best, hb⟩ := Option.ne_none_iff_exists'.1 (mt quickest_eq_none_iff.1 (List.ne_nil_of_mem hm))
  exact ⟨best.1, by simp [choose, hb, request, unasked]⟩

theorem onReady_cases {l : Shortlist} (unasked : l.requested = none) (pid : PathId) (rtt now : Nat) :
    (∃ chosen, (l.onReady pid rtt now).1 = some chosen) ∨
    ∃ deadline, l.onReady pid rtt now =
      (none, { l with candidates := l.candidates ++ [(pid, rtt)], deadline := some deadline }) := by
  simp only [onReady, unasked, Option.isSome_none, Bool.false_eq_true, if_false]
  cases l.policy with
  | eager => exact .inl ⟨pid, by simp [request, unasked]⟩
  | bestRtt window =>
    dsimp only
    split_ifs
    · exact .inl (choose_of_mem (c := (pid, rtt)) rfl (by simp) rfl)
    · exact .inr ⟨_, rfl⟩

end Shortlist

namespace Relay

variable {S : Suite} {ak : AuthKey} {nominator : Role} {pids : List PathId} {v v' : Relay S} {r : Role}

/-- All bytes that have arrived have been processed. -/
def Empty (v : Relay S) : Prop :=
  ∀ r pid s, (v.pair.engine r).strand? pid = some s → s.inbox = Reassembly.empty

/-- Device `r` has nominated path `w` with this hash. -/
def Names (v : Relay S) (r : Role) (w : PathId) (hash : PathHash) : Prop :=
  (v.pair.engine r).nominated = some w ∧ ∃ inbox t,
    (v.pair.engine r).strand? w = some ⟨inbox, .nominated t⟩ ∧ t.hash = hash

theorem Names.unique {w w' : PathId} {hash hash' : PathHash} (h : v.Names r w hash)
    (h' : v.Names r w' hash') : w = w' ∧ hash = hash' := by
  obtain ⟨named, inbox, t, hs, rfl⟩ := h
  obtain ⟨named', inbox', t', hs', rfl⟩ := h'
  obtain rfl := Option.some.inj (named.symm.trans named')
  obtain ⟨rfl, ht⟩ := Strand.mk.inj (Option.some.inj (hs.symm.trans hs'))
  obtain rfl := Stage.nominated.inj ht
  exact ⟨rfl, rfl⟩

theorem Fair.agree (h : v.Fair ak nominator pids) {q : Role} {w w' : PathId} {hash hash' : PathHash}
    (mine : v.Names r w hash) (theirs : v.Names q w' hash') : w = w' ∧ hash = hash' := by
  have across {w w' : PathId} {hash hash' : PathHash} (mine : v.Names nominator w hash)
      (theirs : v.Names nominator.peer w' hash') : w = w' ∧ hash = hash' := by
    obtain ⟨named, inbox, t, hs, rfl⟩ := mine
    obtain ⟨named', inbox', t', hs', rfl⟩ := theirs
    obtain rfl := Option.some.inj (named.symm.trans (h.follows named'))
    obtain ⟨strand, hl⟩ := h.linked w (h.chosen _ w named)
    obtain ⟨-, joint⟩ := h.of_nominated named hl
    have stage : (strand nominator).stage = .nominated t := by rw [← hl.shown _ _ hs]
    have stage' : (strand nominator.peer).stage = .nominated t' := by rw [← hl.shown _ _ hs']
    exact ⟨rfl, joint.hash_eq stage stage'⟩
  rcases Role.eq_or_eq_peer q r with rfl | rfl
  · exact mine.unique theirs
  · rcases Role.eq_or_eq_peer r nominator with rfl | rfl
    · exact across mine theirs
    · rw [Role.peer_peer] at theirs
      obtain ⟨rfl, rfl⟩ := across theirs mine
      exact ⟨rfl, rfl⟩

theorem Fair.nominates (h : v.Fair ak nominator pids) {w : PathId}
    (named : (v.pair.engine r).nominated = some w) : (v.pair.engine nominator).nominated = some w := by
  rcases Role.eq_or_eq_peer r nominator with rfl | rfl
  · exact named
  · exact h.follows named

theorem Fair.unnamed_of_waiting (h : v.Fair ak nominator pids) {q : Role}
    (waiting : (v.pair.engine q).Waiting) : (v.pair.engine r).nominated = none := by
  cases named : (v.pair.engine r).nominated with
  | none => rfl
  | some w =>
    have named := h.nominates named
    obtain ⟨strand, hl⟩ := h.linked w (h.chosen _ w named)
    obtain ⟨stage, joint⟩ := h.of_nominated named hl
    obtain ⟨s, hs⟩ := h.reach q w (h.chosen _ w named) (.inl waiting.nominated)
    obtain rfl := waiting.fresh w s hs
    exact (joint.begun stage q (by rw [← hl.shown q _ hs]; rfl)).elim

/-! ### What a device answers -/

/-- What device `r` sends is in flight, and nothing else of the relay has changed. -/
structure Replied (ak : AuthKey) (nominator : Role) (pids : List PathId) (v v' : Relay S) (r : Role)
    (frames : List (PathId × Bytes)) : Prop where
  fair : v'.Fair ak nominator pids
  empty : v'.Empty
  peer : v'.pair.engine r.peer = v.pair.engine r.peer
  log : v.pair.log ⊆ v'.pair.log
  sent : ∀ pid, v'.flight r pid = v.flight r pid ++ (chunksOf pid frames).flatten
  whole : ∀ e ∈ frames, Frame.Whole e.2

theorem replied_nil (fair : v.Fair ak nominator pids) (empty : v.Empty) (r : Role) :
    Replied ak nominator pids v v r [] :=
  ⟨fair, empty, rfl, fun _ he => he, by simp, by simp⟩

theorem Replied.trans {v'' : Relay S} {frames more : List (PathId × Bytes)}
    (h : Replied ak nominator pids v v' r frames) (k : Replied ak nominator pids v' v'' r more) :
    Replied ak nominator pids v v'' r (frames ++ more) where
  fair := k.fair
  empty := k.empty
  peer := k.peer.trans h.peer
  log := fun _ he => k.log (h.log he)
  sent pid := by rw [k.sent, h.sent, chunksOf_append, List.flatten_append, List.append_assoc]
  whole e he := (List.mem_append.1 he).elim (h.whole e) (k.whole e)

theorem flatten_chunksOf_out (p pid : PathId) (o : Outcome) :
    (chunksOf pid (o.out.toList.map (p, ·))).flatten = sent [(p, o)] pid := by
  rw [sent_one]
  rcases o.out with _ | frame
  · simp
  · by_cases h : p = pid
    · simp [h]
    · simp [h, chunksOf_of_ne h]

theorem flatten_chunksOf_frames (frames : List (PathId × Bytes)) (pid : PathId) :
    sent (frames.map fun (p, frame) => (p, Outcome.frame frame)) pid =
      (chunksOf pid frames).flatten := by
  induction frames with
  | nil => rfl
  | cons e rest ih =>
    obtain ⟨p, frame⟩ := e
    have first := flatten_chunksOf_out p pid (Outcome.frame frame)
    simp only [sent, List.map_cons, List.flatMap_cons] at ih first ⊢
    rw [ih]
    by_cases h : p = pid
    · subst h; simp [Outcome.frame]
    · simp [h, chunksOf_of_ne h]

/-- The election is open, and its engine has not nominated a path. -/
structure Polls (nominator : Role) (v : Relay S) (r : Role) (e : Election (Exchange S)) : Prop where
  engine : e.engine = v.pair.engine r
  started : (v.pair.engine r).started = true
  unnamed : (v.pair.engine r).nominated = none
  phase : e.phase = .nominating
  unasked : e.shortlist.requested = none
  candidates : ∀ c ∈ e.shortlist.candidates, v.Readied r c.1
  timed : e.shortlist.deadline.isSome = true → r = nominator ∧ e.shortlist.candidates ≠ []

/-- The election is open; a nominator with an eligible path waits for the end of its window. -/
structure Votes (nominator : Role) (v : Relay S) (r : Role) (e : Election (Exchange S)) : Prop
    extends Polls nominator v r e where
  waits : r = nominator → ∀ pid, (v.pair.engine r).Eligible pid →
    e.shortlist.deadline.isSome = true

/-- The election is over with winner `w`. -/
structure Elects (v : Relay S) (r : Role) (e : Election (Exchange S)) (w : PathId) (hash : PathHash) :
    Prop where
  engine : e.engine = v.pair.engine r
  phase : e.phase = .nominated
  names : v.Names r w hash

/-- The election is open and has announced nothing, or over and has announced its winner. -/
def Stands (nominator : Role) (v : Relay S) (r : Role) (e : Election (Exchange S))
    (announced : List (PathId × PathHash)) : Prop :=
  (announced = [] ∧ v.Votes nominator r e) ∨
    ∃ w hash, announced = [(w, hash)] ∧ v.Elects r e w hash

theorem Votes.mono {e : Election (Exchange S)} (h : v.Votes nominator r e)
    (same : v'.pair.engine r = v.pair.engine r) (log : v.pair.log ⊆ v'.pair.log) :
    v'.Votes nominator r e where
  engine := h.engine.trans same.symm
  started := by rw [same]; exact h.started
  unnamed := by rw [same]; exact h.unnamed
  phase := h.phase
  unasked := h.unasked
  candidates c hc := by
    obtain ⟨o, rtt, hm, hu⟩ := h.candidates c hc
    exact ⟨o, rtt, log hm, hu⟩
  timed := h.timed
  waits := by rw [same]; exact h.waits

theorem Stands.mono {e : Election (Exchange S)} {announced : List (PathId × PathHash)}
    (h : v.Stands nominator r e announced) (same : v'.pair.engine r = v.pair.engine r)
    (log : v.pair.log ⊆ v'.pair.log) : v'.Stands nominator r e announced := by
  rcases h with ⟨rfl, h⟩ | ⟨w, hash, rfl, h⟩
  · exact .inl ⟨rfl, h.mono same log⟩
  · refine .inr ⟨w, hash, rfl, h.engine.trans same.symm, h.phase, ?_⟩
    rw [Names, same]
    exact h.names

/-- Only the nominator may still have frames to send when it announces the winner. -/
def Spoken (nominator r : Role) (announced : List (PathId × PathHash))
    (frames : List (PathId × Bytes)) : Prop := r = nominator ∨ announced = [] ∨ frames = []

/-- The election answers without a failure, and `Stands` holds after it; `theirs` is then in flight from
the other side. -/
def Answers (ak : AuthKey) (nominator : Role) (pids : List PathId) (v : Relay S) (r : Role)
    (theirs : PathId → Bytes) (answer : Except Failure (List Action) × Election (Exchange S)) : Prop :=
  ∃ v' actions, answer.1 = .ok actions ∧ Replied ak nominator pids v v' r (sends actions) ∧
    v'.flight r.peer = theirs ∧ v'.Stands nominator r answer.2 (winners actions) ∧
    Spoken nominator r (winners actions) (sends actions)

theorem Answers.after {theirs : PathId → Bytes}
    {answer : Except Failure (List Action) × Election (Exchange S)} {actions : List Action}
    (h : Answers ak nominator pids v' r theirs answer)
    (first : Replied ak nominator pids v v' r (sends actions)) (quiet : winners actions = [])
    (calm : r ≠ nominator → answer.1 = .ok []) :
    Answers ak nominator pids v r theirs (answer.1.map (actions ++ ·), answer.2) := by
  obtain ⟨v'', more, ok, replied, flight, stands, -⟩ := h
  refine ⟨v'', actions ++ more, by rw [ok]; rfl, ?_, flight, ?_, ?_⟩
  · rw [sends_append]; exact first.trans replied
  · rw [winners_append, quiet]; exact stands
  · by_cases hr : r = nominator
    · exact .inl hr
    · obtain rfl : more = [] := Except.ok.inj (ok.symm.trans (calm hr))
      exact .inr (.inl (by rw [List.append_nil]; exact quiet))

/-! ### The nomination -/

theorem Empty.turned (h : v.Empty) {x' : Exchange S} {p : PathId} {old new : Strand}
    {used : List Sealing} (t : Exchange.Turned (v.pair.engine r) x' p old new used)
    (taken : new.inbox = Reassembly.empty) (ys : List (PathId × Outcome))
    (flight' : Role → PathId → Bytes) : Empty ⟨v.pair.set r x' ys, flight'⟩ := by
  intro q pid s hs
  by_cases hq : q = r
  · subst hq
    rw [Pair.engine_set_self] at hs
    by_cases hp : pid = p
    · subst hp
      obtain rfl := Option.some.inj (t.after.symm.trans hs)
      exact taken
    · rw [t.others pid hp] at hs
      split_ifs at hs
      exact h q pid s hs
  · rw [Pair.engine_set_of_ne _ hq] at hs
    exact h q pid s hs

theorem names_turned {x' : Exchange S} {p : PathId} {old : Strand} {inbox : Reassembly} {t : Transport}
    {used : List Sealing}
    (turned : Exchange.Turned (v.pair.engine r) x' p old ⟨inbox, .nominated t⟩ used)
    (ys : List (PathId × Outcome)) (flight' : Role → PathId → Bytes) :
    Names ⟨v.pair.set r x' ys, flight'⟩ r p t.hash := by
  refine ⟨?_, inbox, t, ?_, rfl⟩
  · rw [Pair.engine_set_self, turned.nominated]; rfl
  · rw [Pair.engine_set_self, turned.after]

theorem Fair.elects (h : v.Fair ak nominator pids) (empty : v.Empty) {e : Election (Exchange S)}
    (engine : e.engine = v.pair.engine nominator)
    (unnamed : (v.pair.engine nominator).nominated = none) {q : PathId}
    (readied : v.Readied nominator q) :
    Answers ak nominator pids v nominator (v.flight nominator.peer) (e.nominate q) := by
  obtain ⟨-, started, hready⟩ := h.readied nominator q readied
  obtain ⟨inbox, transport, hs⟩ := hready unnamed
  have isNominator : (v.pair.engine nominator).device.isNominator = true := by simp [h.device]
  obtain ⟨⟨ys, answer⟩, fair⟩ := goes_nominate h ⟨rfl, unnamed, readied⟩
  have fresh : transport.tx.isExhausted = false := by
    by_contra worn
    have worn : transport.tx.isExhausted = true := by simpa using worn
    simp [Relay.answer, Move.role, call, Exchange.call, Exchange.nominate, isNominator, unnamed, hs,
      Lane.send_of_exhausted worn, Except.map] at answer
  obtain ⟨x', new, used, asked, deed, turned, named⟩ :=
    Exchange.nominate_of_eligible isNominator unnamed hs fresh
  have hc : (v.pair.engine nominator).call (.nominate q) = (.ok [(q, (Outcome.frame
      (transport.tx.framed S .nominate)).adding (.nominated transport.hash))], x') := by
    have asked : (v.pair.engine nominator).nominate q = _ := asked
    simp [Exchange.call, asked, Except.map]
  rw [after_of_ok (m := .nominate nominator q) started hc] at fair
  have path : x'.nominated = some q := by rw [turned.nominated, if_pos named]
  have answered : e.nominate q = (.ok [.send q (transport.tx.framed S .nominate),
      .nominated q transport.hash], { e with engine := x', phase := .nominated }) := by
    have path : Engine.nominatedPath x' = some q := path
    simp [Election.nominate, engine, asked, Election.accept, Outcome.adding, Outcome.frame,
      Outcome.none, path]
  cases deed with
  | nominated =>
    have taken := empty nominator q _ hs
    refine ⟨_, _, congrArg Prod.fst answered, ⟨fair, empty.turned turned taken _ _, ?_, ?_, ?_, ?_⟩,
      ?_, .inr ⟨q, transport.hash, rfl, ?_⟩, .inl rfl⟩
    · exact Pair.engine_set_of_ne _ (Role.ne_peer nominator).symm ..
    · exact List.subset_append_right ..
    · intro pid
      have frame := flatten_chunksOf_out q pid (Outcome.frame (transport.tx.framed S .nominate))
      simpa [left, Move.role, sent_one, Outcome.frame, Outcome.adding] using frame.symm
    · simp [Lane.whole_framed Lane.fits_nominate]
    · funext pid
      simp [left, Move.role, (Role.ne_peer nominator).symm]
    · rw [answered]
      exact ⟨(Pair.engine_set_self ..).symm, rfl, names_turned turned _ _⟩

/-! ### A path that is ready, and the end of the window -/

theorem Polls.onReady {e : Election (Exchange S)} (h : v.Polls nominator r e)
    (fair : v.Fair ak nominator pids) (empty : v.Empty) {p : PathId} (readied : v.Readied r p)
    (others : r = nominator → ∀ q, q ≠ p → (v.pair.engine r).Eligible q →
      e.shortlist.deadline.isSome = true) (now rtt : Nat) :
    Answers ak nominator pids v r (v.flight r.peer) (e.onReady p now rtt) := by
  have isNominator : Engine.isNominator e.engine = (r == nominator) := by
    rw [h.engine]
    exact congrArg Device.isNominator (fair.device r)
  unfold Election.onReady
  by_cases hr : r = nominator
  · subst hr
    rw [if_neg (by simp [isNominator])]
    obtain ⟨chosen, -⟩ := Shortlist.onReady_mem p rtt now e.shortlist
    have candidates : ∀ c ∈ e.shortlist.candidates ++ [(p, rtt)], v.Readied r c.1 := by
      intro c hc
      rcases List.mem_append.1 hc with hc | hc
      · exact h.candidates c hc
      · rw [List.mem_singleton.1 hc]; exact readied
    rcases Shortlist.onReady_cases h.unasked p rtt now with ⟨q, hq⟩ | ⟨deadline, hl⟩
    · obtain ⟨c, hc, rfl⟩ := chosen q hq
      rcases hl : e.shortlist.onReady p rtt now with ⟨answer, shortlist⟩
      obtain rfl : answer = some c.1 := by rw [hl] at hq; exact hq
      exact fair.elects (e := { e with shortlist }) empty h.engine h.unnamed (candidates c hc)
    · rw [hl]
      refine ⟨v, [], rfl, replied_nil fair empty r, rfl, .inl ⟨rfl, ?_, fun _ _ _ => rfl⟩, .inl rfl⟩
      exact { h with candidates, timed := fun _ => ⟨rfl, by simp⟩ }
  · rw [if_pos (by simp [isNominator, hr])]
    exact ⟨v, [], rfl, replied_nil fair empty r, rfl, .inl ⟨rfl, h, fun he => absurd he hr⟩,
      .inr (.inl rfl)⟩

theorem Votes.expires {e : Election (Exchange S)} (h : v.Votes nominator r e)
    (fair : v.Fair ak nominator pids) (empty : v.Empty) (due : e.shortlist.deadline.isSome = true)
    {live : List PathId} (alive : ∀ pid ∈ pids, pid ∈ live) (now : Nat) (s : Entropy) :
    ∃ answer, e.handle (.deadline live) now s = (answer.1, answer.2, s) ∧
      Answers ak nominator pids v r (v.flight r.peer) answer := by
  obtain ⟨rfl, waiting⟩ := h.timed due
  obtain ⟨c, hc⟩ := List.exists_mem_of_ne_nil _ waiting
  have lives : live.contains c.1 = true :=
    List.contains_iff_mem.2 (alive _ (fair.readied r c.1 (h.candidates c hc)).1)
  obtain ⟨q, hq⟩ : ∃ q, (e.shortlist.expire live).1 = some q :=
    Shortlist.choose_of_mem (l := { e.shortlist with deadline := none }) h.unasked hc lives
  obtain ⟨chosen, -⟩ := Shortlist.choose_mem (fun pid => live.contains pid)
    { e.shortlist with deadline := none }
  obtain ⟨c', hc', rfl⟩ := chosen q hq
  rcases hl : e.shortlist.expire live with ⟨answer, shortlist⟩
  obtain rfl : answer = some c'.1 := by rw [hl] at hq; exact hq
  have answers := fair.elects (e := { e with shortlist }) empty h.engine h.unnamed
    (h.candidates c' hc')
  refine ⟨_, ?_, answers⟩
  obtain ⟨v', actions, ok, -⟩ := answers
  have phase : ¬ e.phase ≠ .nominating := not_not.2 h.phase
  simp only [Election.handle, if_neg phase, Election.onDeadline, hl, ok]

/-! ### A frame of the other side -/

/-- The outcomes a frame can have before a nomination, with the state of the relay after each. -/
inductive Tells (v : Relay S) (r : Role) (p : PathId) : Outcome → Prop
  | answered {frame : Bytes} (unready : ¬ (v.pair.engine r).Eligible p)
      (unnamed : (v.pair.engine r).nominated = none) : Tells v r p (.frame frame)
  | ready {o : Outcome} {rtt : Nat} (update : o.update = some (.ready rtt)) (ulp : o.ulp = none)
      (unnamed : (v.pair.engine r).nominated = none) : Tells v r p o
  | nominated {hash : PathHash} (names : v.Names r p hash) : Tells v r p (.news (.nominated hash))

/-- A device has taken one frame from its path. -/
structure Heard (ak : AuthKey) (nominator : Role) (pids : List PathId) (v v' : Relay S) (r : Role)
    (p : PathId) (rest : Bytes) (o : Outcome) : Prop where
  replied : Replied ak nominator pids v v' r (o.out.toList.map (p, ·))
  started : (v'.pair.engine r).started = true
  rest : v'.flight r.peer = Function.update (v.flight r.peer) p rest
  logged : (r, p, o) ∈ v'.pair.log
  others : ∀ q, q ≠ p → (v'.pair.engine r).nominated = none →
    (v'.pair.engine r).strand? q = (v.pair.engine r).strand? q
  tells : v'.Tells r p o

theorem tells_turned {d : Device} {p : PathId} {now : Nat} {c : Bytes} {inbox inbox' : Reassembly}
    {stage stage' : Stage} {o : Outcome} {used used' : List Sealing} {x : Exchange S}
    (advance : Device.Advance S d p now c stage stage' o used) (unfinished : stage.isNominated = false)
    (unnamed : (v.pair.engine r).nominated = none)
    (t : Exchange.Turned (v.pair.engine r) x p ⟨inbox, stage⟩ ⟨inbox', stage'⟩ used')
    (ys : List (PathId × Outcome)) (flight' : Role → PathId → Bytes) :
    Tells ⟨v.pair.set r x ys, flight'⟩ r p o := by
  have still (waits : stage'.isNominated = false) : ((v.pair.set r x ys).engine r).nominated = none := by
    rw [Pair.engine_set_self, t.nominated, waits]
    exact unnamed
  cases advance with
  | answered =>
    refine .answered (fun eligible => ?_) (still rfl)
    obtain ⟨inbox, transport, hs⟩ := eligible
    rw [Pair.engine_set_self, t.after] at hs
    cases hs
  | proven | confirmed => exact .ready rfl rfl (still rfl)
  | nominated => exact .nominated (names_turned t ys flight')
  | carried => cases unfinished

/-- A chunk has arrived, and the rest of the bytes of its path is in flight. -/
def landed (v : Relay S) (r : Role) (p : PathId) (rest : Bytes) (x : Exchange S) : Relay S where
  pair := v.pair.set r x []
  flight := Function.update v.flight r.peer (Function.update (v.flight r.peer) p rest)

theorem Fair.lands (fair : v.Fair ak nominator pids) (empty : v.Empty)
    (started : (v.pair.engine r).started = true) (unnamed : (v.pair.engine r).nominated = none)
    {p : PathId} (hp : p ∈ pids) {c rest : Bytes} (arrives : v.flight r.peer p = c ++ rest) :
    ∃ x₁ stage, Engine.addChunk p c (v.pair.engine r) = (.ok (), x₁) ∧
      Exchange.Turned (v.pair.engine r) x₁ p ⟨Reassembly.empty, stage⟩ ⟨⟨c⟩, stage⟩ [] ∧
      stage.isNominated = false ∧ (v.landed r p rest x₁).Fair ak nominator pids := by
  obtain ⟨⟨inbox, stage⟩, hs⟩ := fair.reach r p hp (.inl unnamed)
  obtain rfl : inbox = Reassembly.empty := empty r p _ hs
  obtain ⟨x₁, added⟩ : ∃ x₁, Engine.addChunk p c (v.pair.engine r) = (.ok (), x₁) := by
    simp [Engine.addChunk, Exchange.addChunk, hs]
  have hc : (v.pair.engine r).call (v.call (.deliver r p c.length)) = (.ok [], x₁) := by
    have added : (v.pair.engine r).addChunk p c = _ := added
    simp [Exchange.call, call, arrives, added, Except.map]
  obtain ⟨old, new, used, deed, turned⟩ := (fair.settled r).turned_of_addChunk added
  cases deed with
  | @fed inbox stage' _ =>
    obtain ⟨rfl, rfl⟩ := Strand.mk.inj (Option.some.inj (turned.before.symm.trans hs))
    refine ⟨x₁, stage', added, turned, ?_, ?_⟩
    · by_contra named
      have chosen := (fair.settled r).named p _ hs (by simpa using named)
      rw [unnamed] at chosen
      cases chosen
    · obtain ⟨-, fair₁⟩ := goes_deliver (n := c.length) fair ⟨started, hp, .inl unnamed⟩
      rw [after_of_ok (m := .deliver r p c.length) started hc] at fair₁
      convert fair₁ using 1
      refine congrArg (Relay.mk _) (funext fun q => funext fun pid => ?_)
      by_cases hq : q = r.peer
      · subst hq
        by_cases hpid : pid = p
        · subst hpid; simp [left, arrives]
        · simp [left, hpid]
      · simp [left, hq]

/-- The frame that has arrived is accepted. -/
theorem Fair.takes (agrees : S.Agrees) (fair : v.Fair ak nominator pids)
    (started : (v.pair.engine r).started = true) (unnamed : (v.pair.engine r).nominated = none)
    {p : PathId} (hp : p ∈ pids) {c : Bytes} (whole : Frame.Whole c) {stage : Stage}
    (hs : (v.pair.engine r).strand? p = some ⟨⟨c⟩, stage⟩) (now : Nat) (s : Entropy) :
    ∃ o x₂ s' stage' used, Engine.processFrame p now (v.pair.engine r) s = (.ok (some o), x₂, s') ∧
      (∃ body, Device.Advance S (v.pair.engine r).device p now body stage stage' o used) ∧
      Exchange.Turned (v.pair.engine r) x₂ p ⟨⟨c⟩, stage⟩ ⟨Reassembly.empty, stage'⟩ used ∧
      Fair ak nominator pids ⟨v.pair.set r x₂ [(p, o)], fun q pid =>
        v.flight q pid ++ if q = r then sent [(p, o)] pid else []⟩ := by
  have legal : v.Legal nominator pids (.process r p now s) := ⟨started, hp, .inl unnamed⟩
  obtain ⟨⟨ys, ok⟩, fair₂⟩ := goes_process agrees fair legal
  obtain ⟨o, x₂, s', answer⟩ := Exchange.processFrame_of_whole hs whole ok
  obtain ⟨old, new, used, deed, turned⟩ := Exchange.turned_of_processFrame answer
  have hc : (v.pair.engine r).call (.processFrame p now s) = (.ok [(p, o)], x₂) := by
    have answer : (v.pair.engine r).processFrame p now s = _ := answer
    simp [Exchange.call, answer, Except.map]
  rw [after_of_ok (m := .process r p now s) started hc] at fair₂
  obtain ⟨body, next⟩ := Frame.next_of_whole (r := ⟨c⟩) whole
  cases deed with
  | @took inbox inbox' stage₁ stage' c' _ _ o used next' advance =>
    obtain ⟨rfl, rfl⟩ := Strand.mk.inj (Option.some.inj (turned.before.symm.trans hs))
    obtain ⟨-, rfl⟩ := Prod.mk.inj (next'.symm.trans next)
    exact ⟨o, x₂, s', stage', used, answer, ⟨c', advance⟩, turned, fair₂⟩

theorem Fair.hears (agrees : S.Agrees) (fair : v.Fair ak nominator pids) (empty : v.Empty)
    (started : (v.pair.engine r).started = true) (unnamed : (v.pair.engine r).nominated = none)
    {p : PathId} (hp : p ∈ pids) {c rest : Bytes} (whole : Frame.Whole c)
    (arrives : v.flight r.peer p = c ++ rest) (now : Nat) (s : Entropy) :
    ∃ x₁ v' o s', Engine.addChunk p c (v.pair.engine r) = (.ok (), x₁) ∧
      Engine.processFrame p now x₁ s = (.ok (some o), v'.pair.engine r, s') ∧
      Heard ak nominator pids v v' r p rest o := by
  obtain ⟨x₁, stage, added, t₁, unfinished, fair₁⟩ := fair.lands empty started unnamed hp arrives
  have engine : (v.landed r p rest x₁).pair.engine r = x₁ := Pair.engine_set_self ..
  have unnamed₁ : x₁.nominated = none := by rw [t₁.nominated, unfinished]; exact unnamed
  obtain ⟨o, x₂, s', stage', used, answer, ⟨body, advance⟩, t₂, fair₂⟩ :=
    fair₁.takes agrees (r := r) (by rw [engine, t₁.started, started]) (by rw [engine, unnamed₁]) hp whole
      (by rw [engine]; exact t₁.after) now s
  rw [engine] at answer advance t₂
  have turned := t₁.trans t₂ unfinished
  rw [landed, Pair.set_set] at fair₂
  refine ⟨x₁, _, o, s', added, ?_, ⟨⟨fair₂, ?_, ?_, ?_, ?_, ?_⟩, ?_, ?_, ?_, ?_, ?_⟩⟩
  · rw [answer, Pair.engine_set_self]
  · exact empty.turned turned rfl _ _
  · exact Pair.engine_set_of_ne _ (Role.ne_peer r).symm ..
  · exact List.subset_append_right ..
  · intro pid
    have other : r ≠ r.peer := Role.ne_peer r
    simp [flatten_chunksOf_out, Function.update_of_ne other]
  · exact advance.whole
  · rw [Pair.engine_set_self, turned.started, started]
  · funext pid
    simp [(Role.ne_peer r).symm]
  · simp
  · intro q hq waits
    rw [Pair.engine_set_self] at waits ⊢
    rw [turned.others q hq, if_neg]
    intro named
    rw [turned.nominated, if_pos named] at waits
    cases waits
  · exact tells_turned advance unfinished unnamed turned _ _

/-! ### Reaction of the election -/

variable {e : Election (Exchange S)} {p : PathId} {rest : Bytes} {o : Outcome}

theorem Stands.drain {announced : List (PathId × PathHash)} (h : v.Stands nominator r e announced)
    (fair : v.Fair ak nominator pids) (empty : v.Empty) (hp : p ∈ pids) (now n : Nat) (s : Entropy) :
    Election.drain p now n e s = (.ok [], e, s) := by
  rcases h with ⟨-, votes⟩ | ⟨w, hash, -, elects⟩
  · cases n with
    | zero => rfl
    | succ n =>
      obtain ⟨⟨inbox, stage⟩, hs⟩ := fair.reach r p hp (.inl votes.unnamed)
      obtain rfl : inbox = Reassembly.empty := empty r p _ hs
      have next : Reassembly.empty.next = (.ok none, Reassembly.empty) :=
        Reassembly.next_of_nil (List.append_nil _)
      have nothing : Engine.processFrame p now e.engine s = (.ok none, e.engine, s) := by
        rw [votes.engine]
        simp [Engine.processFrame, Exchange.processFrame, hs, next]
      rw [Election.drain, if_neg (not_not.2 votes.phase), nothing]
  · exact Election.drain_of_over (by simp [elects.phase])

theorem Heard.polls (h : Heard ak nominator pids v v' r p rest o) (votes : v.Votes nominator r e)
    (unnamed : (v'.pair.engine r).nominated = none) :
    v'.Polls nominator r { e with engine := v'.pair.engine r } where
  engine := rfl
  started := h.started
  unnamed := unnamed
  phase := votes.phase
  unasked := votes.unasked
  candidates c hc := by
    obtain ⟨o', rtt, hm, hu⟩ := votes.candidates c hc
    exact ⟨o', rtt, h.replied.log hm, hu⟩
  timed := votes.timed

/-- The election accepts every outcome that an honest frame can have. -/
theorem Heard.accept (h : Heard ak nominator pids v v' r p rest o) (votes : v.Votes nominator r e)
    (now : Nat) : Answers ak nominator pids v r (Function.update (v.flight r.peer) p rest)
      (Election.accept p o (Election.onReady p now) { e with engine := v'.pair.engine r }) := by
  have others (unnamed : (v'.pair.engine r).nominated = none) (hr : r = nominator) (q : PathId)
      (hq : q ≠ p) (ready : (v'.pair.engine r).Eligible q) : e.shortlist.deadline.isSome = true := by
    obtain ⟨inbox, t, hs⟩ := ready
    exact votes.waits hr q ⟨inbox, t, (h.others q hq unnamed).symm.trans hs⟩
  have tells := h.tells
  cases tells with
  | @answered frame unready unnamed =>
    refine ⟨v', [.send p frame], rfl, h.replied, h.rest, .inl ⟨rfl, h.polls votes unnamed, ?_⟩,
      .inr (.inl rfl)⟩
    intro hr q ready
    by_cases hq : q = p
    · subst hq; exact (unready ready).elim
    · exact others unnamed hr q hq ready
  | @ready o rtt update ulp unnamed =>
    have readied : v'.Readied r p := ⟨o, rtt, h.logged, update⟩
    have answers := (h.polls votes unnamed).onReady h.replied.fair h.replied.empty readied
      (others unnamed) now rtt
    rw [h.rest] at answers
    have first : Replied ak nominator pids v v' r (sends (o.out.toList.map (Action.send p))) := by
      rw [sends_map_send]
      exact h.replied
    have calm (hr : r ≠ nominator) :
        (Election.onReady p now rtt { e with engine := v'.pair.engine r }).1 = .ok [] := by
      have follows : Engine.isNominator (v'.pair.engine r) = false :=
        (congrArg Device.isNominator (h.replied.fair.device r)).trans (beq_false_of_ne hr)
      simp [Election.onReady, follows]
    simpa only [Election.accept, ulp, update, Option.isSome_none, Bool.false_eq_true, if_false] using
      answers.after first (winners_map_send ..) calm
  | @nominated hash names =>
    have path : Engine.nominatedPath (v'.pair.engine r) = some p := names.1
    have accepted : Election.accept p (Outcome.news (.nominated hash)) (Election.onReady p now)
        { e with engine := v'.pair.engine r } = (.ok [.nominated p hash],
          { e with engine := v'.pair.engine r, phase := .nominated }) := by
      simp [Election.accept, Outcome.news, Outcome.none, path]
    rw [accepted]
    exact ⟨v', _, rfl, h.replied, h.rest, .inr ⟨p, hash, rfl, rfl, rfl, names⟩, .inr (.inr rfl)⟩

theorem Votes.hears (agrees : S.Agrees) (h : v.Votes nominator r e) (fair : v.Fair ak nominator pids)
    (empty : v.Empty) (hp : p ∈ pids) {c : Bytes} (whole : Frame.Whole c)
    (arrives : v.flight r.peer p = c ++ rest) (now : Nat) (s : Entropy) :
    ∃ answer s', e.handle (.frame p c) now s = (answer.1, answer.2, s') ∧
      Answers ak nominator pids v r (Function.update (v.flight r.peer) p rest) answer := by
  obtain ⟨x₁, v', o, s', added, answer, heard⟩ :=
    fair.hears agrees empty h.started h.unnamed hp whole arrives now s
  have answers := heard.accept h now
  refine ⟨_, s', ?_, answers⟩
  obtain ⟨v'', actions, ok, replied, -, stands, -⟩ := answers
  have phase : ¬ e.phase ≠ .nominating := not_not.2 h.phase
  have drained := stands.drain replied.fair replied.empty hp now
    (Engine.pending x₁ p) s'
  rcases ha : Election.accept p o (Election.onReady p now) { e with engine := v'.pair.engine r } with
    ⟨result, e'⟩
  rw [ha] at ok drained
  obtain rfl : result = .ok actions := ok
  rw [← h.engine] at added
  simp only [Election.handle, if_neg phase, Election.onChunk, added, Election.drain, answer, ha,
    drained, Except.map, List.append_nil]

/-! ### The start -/

theorem Fair.starts (fair : v.Fair ak nominator pids) (empty : v.Empty)
    (waiting : (v.pair.engine r).Waiting) (policy : Policy) (now : Nat) (s : Entropy) :
    ∃ answer s', (Election.new (v.pair.engine r) policy).start now s = (answer.1, answer.2, s') ∧
      Answers ak nominator pids v r (v.flight r.peer) answer := by
  obtain ⟨frames, x', s', answer, -, unnamed, strands⟩ := waiting.initialFrames now s
  have hc := Exchange.call_of_started answer
  have started : x'.started = true := by
    have started := (waiting.start now s).1
    rwa [hc] at started
  have early {pid : PathId} {strand : Strand} (hs : x'.strand? pid = some strand) :
      strand.inbox = Reassembly.empty ∧ ∀ t, strand.stage ≠ .ready t := by
    rcases strands pid with ⟨-, none⟩ | ⟨stage, -, some, greeted⟩
    · rw [none] at hs; cases hs
    · obtain rfl := Option.some.inj (some.symm.trans hs)
      refine ⟨rfl, fun t => ?_⟩
      rcases greeted with rfl | ⟨secret, challenge, rfl⟩ <;> exact Stage.noConfusion
  have legal : v.Legal nominator pids (.start r now s) := waiting.started
  obtain ⟨-, fair'⟩ := goes_start fair legal
  rw [after_of_ok (m := .start r now s) rfl hc] at fair'
  have begun := Election.start_of_initialFrames answer policy
  refine ⟨(_, _), s', begun, ?_⟩
  refine ⟨_, _, rfl, ⟨fair', ?_, ?_, ?_, ?_, ?_⟩, ?_,
    .inl ⟨Election.winners_start begun, ⟨?_, ?_, ?_, rfl, rfl, nofun, nofun⟩, ?_⟩,
    .inr (.inl (Election.winners_start begun))⟩
  · intro q pid strand hs
    by_cases hq : q = r
    · subst hq
      rw [Move.role, Pair.engine_set_self] at hs
      exact (early hs).1
    · rw [Move.role, Pair.engine_set_of_ne _ hq] at hs
      exact empty q pid strand hs
  · exact Pair.engine_set_of_ne _ (Role.ne_peer r).symm ..
  · exact List.subset_append_right ..
  · intro pid
    simp [left, Move.role, flatten_chunksOf_frames, Election.sends_map_frames]
  · rw [Election.sends_map_frames]
    exact Exchange.whole_initialFrames answer
  · funext pid
    simp [left, Move.role, (Role.ne_peer r).symm]
  · exact (Pair.engine_set_self ..).symm
  · rw [Move.role, Pair.engine_set_self]; exact started
  · rw [Move.role, Pair.engine_set_self]; exact unnamed
  · rintro - pid ⟨inbox, t, hs⟩
    rw [Move.role, Pair.engine_set_self] at hs
    exact ((early hs).2 t rfl).elim

end Relay

end PathRace
