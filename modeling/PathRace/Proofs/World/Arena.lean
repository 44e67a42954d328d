import PathRace.Control
import PathRace.Proofs.Duel.Rest
import PathRace.Proofs.World.Links

/-! Two devices connected by any number of in-process pairs, and all their tasks. Every task makes one
step of their duel or leaves it unchanged (`Shows.move`). -/

namespace PathRace

/-- Two devices with the same key, opposite roles and one nominator between them, and the loopbacks that
connect them. -/
structure Arena where
  ak : AuthKey
  nominator : Role
  /-- The id and the capacity of each loopback. -/
  pairs : List (PathId × Nat)
  nonempty : pairs ≠ []
  distinct : (pairs.map Prod.fst).Nodup
  /-- The end that the initiator has of each loopback. -/
  side : PathId → End
  config : Role → Config
  role : ∀ r, (config r).role = r
  nominates : ∀ r, (config r).isNominator = (r == nominator)
  key : ∀ r, (config r).ak = ak
  /-- The order in which each device has collected the paths. -/
  order : Role → List PathId
  arranged : ∀ r, (order r).Perm (pairs.map Prod.fst)
  /-- The device at the first site. -/
  first : Role

namespace Arena

def pids (a : Arena) : List PathId := a.pairs.map Prod.fst

def link (a : Arena) (pid : PathId) : Nat := a.pids.idxOf pid

def outlet (a : Arena) (r : Role) (pid : PathId) : Outlet :=
  ⟨a.link pid, match r with
    | .initiator => a.side pid
    | .responder => (a.side pid).other⟩

def paths (a : Arena) (r : Role) : List (PathId × Outlet) :=
  (a.order r).map fun pid => (pid, a.outlet r pid)

def seat (a : Arena) (r : Role) : Nat := if r = a.first then 0 else 1

def site (a : Arena) (S : Suite) (r : Role) : Site (Exchange S) :=
  { Site.new (a.config r) (Exchange.new S) with paths := a.paths r }

def start (a : Arena) (S : Suite) (s : Entropy) : World (Exchange S) :=
  .start (a.pairs.map fun (pid, capacity) => ⟨pid, .loopback (.new capacity)⟩)
    [a.site S a.first, a.site S a.first.peer] s

theorem terms (a : Arena) : Duel.Terms a.ak a.nominator a.pids a.config a.order where
  distinct := a.distinct
  nonempty := by simpa [pids] using a.nonempty
  arranged := a.arranged
  setup r := by rw [Config.setup, a.role, a.nominates, a.key]

theorem seat_inj (a : Arena) {r q : Role} (h : a.seat r = a.seat q) : r = q := by
  unfold seat at h
  split_ifs at h with hr hq hq
  · rw [hr, hq]
  · rcases Role.eq_or_eq_peer r a.first with he | he
    · exact (hr he).elim
    · rcases Role.eq_or_eq_peer q a.first with hf | hf
      · exact (hq hf).elim
      · rw [he, hf]

theorem link_inj (a : Arena) {p q : PathId} (hp : p ∈ a.pids) (h : a.link p = a.link q) : p = q :=
  (List.idxOf_inj hp).1 h

theorem side_peer (a : Arena) (r : Role) (pid : PathId) :
    (a.outlet r.peer pid).side = (a.outlet r pid).side.other := by
  cases r <;> cases hs : a.side pid <;> simp [outlet, Role.peer, End.other, hs]

theorem mem_order (a : Arena) {r : Role} {pid : PathId} : pid ∈ a.order r ↔ pid ∈ a.pids :=
  (a.arranged r).mem_iff

theorem map_fst_paths (a : Arena) (r : Role) : (a.paths r).map Prod.fst = a.order r := by
  simp [paths, Function.comp_def]

theorem lookup_paths (a : Arena) (r : Role) (pid : PathId) : (a.paths r).lookup pid =
    if pid ∈ a.pids then some (a.outlet r pid) else none := by
  have known (l : List PathId) : (l.map fun p => (p, a.outlet r p)).lookup pid =
      if pid ∈ l then some (a.outlet r pid) else none := by
    induction l with
    | nil => rfl
    | cons p l ih =>
      by_cases h : pid = p
      · subst h; simp
      · simp [List.lookup_cons, ih, h, beq_false_of_ne h]
  simp only [paths, known, a.mem_order]

variable {S : Suite} {a : Arena} {w : World (Exchange S)} {d : Duel S} {r : Role} {pid : PathId}

/-! ### A duel in a world -/

/-- A site runs session `x` on the paths of the arena. -/
structure Seats (a : Arena) (r : Role) (x : Session (Exchange S)) (site : Site (Exchange S)) : Prop where
  config : site.config = a.config r
  make : site.make = Exchange.new S
  session : site.session = x
  paths : x.isIdle = true → site.paths = a.paths r
  attached : x.isIdle = false → site.attached = a.paths r

/-- The queues of the link are those of the duel, unless the link is closed. -/
structure Carries (a : Arena) (d : Duel S) (pid : PathId) (l : Loopback) : Prop where
  capacity : 0 < l.capacity
  closed : l.closed.isSome = true ↔ d.Closed pid
  inward : ¬ d.Closed pid → ∀ r, l.inward (a.outlet r pid).side = ⟨d.queue r pid, true, true⟩

structure Shows (a : Arena) (w : World (Exchange S)) (d : Duel S) : Prop where
  unasked : w.operation = none
  alone : w.background = []
  seats : ∀ r, ∃ site, w.sites[a.seat r]? = some site ∧ a.Seats r (d.session r) site
  others : ∀ i site, w.sites[i]? = some site → ∃ r, i = a.seat r
  links : ∀ pid ∈ a.pids, ∃ l, w.loop? (a.link pid) = some l ∧ a.Carries d pid l

theorem loop?_carryOut {before after : Race} (steady : after.Steady a.pids)
    (grown : before.closes <+: after.closes) (hp : pid ∈ a.pids) {l : Loopback}
    (h : w.loop? (a.link pid) = some l)
    (shut : pid ∈ before.closes.map Prod.fst → l.closed.isSome = true) :
    ∃ l', (w.carryOut (a.paths r) before after).loop? (a.link pid) = some l' ∧ l.Later l' ∧
      (pid ∈ after.closes.map Prod.fst → l'.closed.isSome = true) ∧
      (pid ∉ after.closes.map Prod.fst → l' = l) := by
  obtain ⟨new, split⟩ := grown
  have drop : after.closes.drop before.closes.length = new := by rw [← split, List.drop_left]
  by_cases closed : pid ∈ after.closes.map Prod.fst
  · obtain ⟨l', h', later⟩ := World.later_carryOut (a.paths r) before after h
    refine ⟨l', h', later, fun _ => ?_, fun spared => (spared closed).elim⟩
    rw [← split, List.map_append] at closed
    rcases List.mem_append.1 closed with old | fresh
    · exact later.closed (shut old)
    · obtain ⟨⟨p, reason⟩, he, rfl⟩ := List.mem_map.1 fresh
      have known : (a.paths r).lookup p = some (a.outlet r p) := by rw [a.lookup_paths, if_pos hp]
      obtain ⟨l'', h'', now⟩ := World.closed_carryOut known (drop.symm ▸ he) h
      obtain rfl := Option.some.inj (h'.symm.trans h'')
      exact now
  · refine ⟨l, ?_, .refl l, fun shut => (closed shut).elim, fun _ => rfl⟩
    rw [World.loop?_carryOut_of_kept, h]
    · rintro ⟨p, reason⟩ he o known same
      rw [drop] at he
      rw [a.lookup_paths] at known
      split_ifs at known with hq
      obtain rfl := Option.some.inj known
      obtain rfl : p = pid := a.link_inj hq same
      exact closed (List.mem_map.2 ⟨_, split ▸ List.mem_append_right _ he, rfl⟩)
    · rintro ⟨p, o⟩ he same
      obtain ⟨q, hq, hpo⟩ := List.mem_map.1 he
      obtain ⟨rfl, rfl⟩ := Prod.mk.inj hpo
      obtain rfl : q = pid := a.link_inj (a.mem_order.1 hq) same
      have owned := steady.owned hp closed
      have place := List.mem_append.1 (steady.placed q owned)
      refine ⟨?_, by simpa [Race.holdsWriter] using steady.written q owned⟩
      simpa [Race.holdsReader] using place

theorem Shows.carried (h : a.Shows w d) {x : Session (Exchange S)}
    {f : Site (Exchange S) → Site (Exchange S)} {before : Race}
    (seat : ∀ site, a.Seats r (d.session r) site → a.Seats r x (f site))
    (steady : x.race.Steady a.pids) (grown : before.closes <+: x.race.closes)
    (known : ∀ pid ∈ before.closes.map Prod.fst, d.Closed pid)
    (more : (d.race r).closes ⊆ x.race.closes) :
    a.Shows ((w.onSite (a.seat r) f).carryOut (a.paths r) before x.race) (d.put r x) := by
  have shut (pid : PathId) : d.Closed pid → (d.put r x).Closed pid := Duel.closed_mono rfl more
  have sites := World.sites_carryOut (a.paths r) before x.race (w.onSite (a.seat r) f)
  constructor
  case unasked => exact (World.carryOut_keeps (p := World.operation) (fun _ _ _ => rfl) ..).trans h.unasked
  case alone => exact (World.carryOut_keeps (p := World.background) (fun _ _ _ => rfl) ..).trans h.alone
  case seats =>
    intro q
    obtain ⟨site, hs, seats⟩ := h.seats q
    rw [sites]
    by_cases hq : q = r
    · subst hq
      refine ⟨f site, ?_, by rw [Duel.session_put_self]; exact seat site seats⟩
      simp [World.onSite, hs]
    · refine ⟨site, ?_, by rw [Duel.session_put_of_ne d hq]; exact seats⟩
      have other : a.seat r ≠ a.seat q := fun same => hq (a.seat_inj same).symm
      rw [World.onSite, List.getElem?_modify_ne _ _ other, hs]
  case others =>
    intro i site hs
    rw [sites, World.onSite, List.getElem?_modify] at hs
    obtain ⟨site, hs, -⟩ := Option.map_eq_some_iff.1 hs
    exact h.others i site hs
  case links =>
    -- a link that the race has closed is closed in both, and any other is as it was
    intro pid hp
    obtain ⟨l, hl, carries⟩ := h.links pid hp
    obtain ⟨l', hl', later, closed, spared⟩ := loop?_carryOut (r := r)
      (w := w.onSite (a.seat r) f) steady grown hp hl fun hc => carries.closed.2 (known pid hc)
    refine ⟨l', hl', ?_⟩
    by_cases hc : pid ∈ x.race.closes.map Prod.fst
    · have now : (d.put r x).Closed pid := Duel.closed_put d r hc
      exact ⟨later.capacity ▸ carries.capacity, ⟨fun _ => now, fun _ => closed hc⟩,
        fun still => (still now).elim⟩
    · obtain rfl := spared hc
      have same : (d.put r x).Closed pid ↔ d.Closed pid := by
        refine ⟨fun now => ?_, shut pid⟩
        obtain ⟨q, hq⟩ := now
        rcases Role.eq_or_eq_peer q r with rfl | rfl
        · rw [Duel.race, Duel.session_put_self] at hq
          exact (hc hq).elim
        · rw [Duel.race, Duel.session_put_of_ne _ (Role.ne_peer r).symm] at hq
          exact ⟨_, hq⟩
      exact ⟨carries.capacity, carries.closed.trans same.symm, fun still => carries.inward (mt same.2 still)⟩

theorem Shows.put (h : a.Shows w d) (busy : (d.session r).isIdle = false) {x : Session (Exchange S)}
    (onward : (d.session r).Onward x) (steady : x.race.Steady a.pids) :
    a.Shows (w.setSession (a.seat r) x) (d.put r x) := by
  obtain ⟨site, hs, seats⟩ := h.seats r
  have he : w.setSession (a.seat r) x = (w.onSite (a.seat r) fun site => { site with session := x }).carryOut
      (a.paths r) (d.race r) x.race := by
    simp only [World.setSession, hs, seats.attached busy, seats.session, Duel.race]
  rw [he]
  refine h.carried (fun site seats => ⟨seats.config, seats.make, rfl, fun idle => ?_, fun _ =>
    seats.attached busy⟩) steady onward.grown (fun pid hp => ⟨r, hp⟩) onward.grown.subset
  rw [onward.busy] at idle
  cases idle

theorem Shows.kept (h : a.Shows w d) {w' : World (Exchange S)} (relinked : w.Relinked w')
    (same : ∀ k l, w.loop? k = some l → w'.loop? k = some l) : a.Shows w' d where
  unasked := relinked.operation.trans h.unasked
  alone := relinked.background.trans h.alone
  seats := by rw [relinked.sites]; exact h.seats
  others := by rw [relinked.sites]; exact h.others
  links pid hp := by
    obtain ⟨l, hl, carries⟩ := h.links pid hp
    exact ⟨l, same _ l hl, carries⟩

theorem Shows.untouched (h : a.Shows w d) {w' : World (Exchange S)} {k : Nat} {l : Loopback}
    (relinked : w.Relinked w') (hl : w.loop? k = some l) (mine : w'.loop? k = some l)
    (others : ∀ k', k' ≠ k → w'.loop? k' = w.loop? k') : a.Shows w' d := by
  refine h.kept relinked fun k' l' hk => ?_
  by_cases same : k' = k
  · rw [same, mine, ← hl, ← same, hk]
  · rw [others k' same, hk]

theorem Shows.meanwhile (h : a.Shows w d) (now : Nat) (s : Entropy) :
    a.Shows { w with now := now, entropy := s } d :=
  ⟨h.unasked, h.alone, h.seats, h.others, h.links⟩

theorem Shows.fill (h : a.Shows w d) (hp : pid ∈ a.pids) (spared : ¬ d.Closed pid) {l : Loopback}
    (hl : w.loop? (a.link pid) = some l) {w' : World (Exchange S)} {q : Role} {chunks : List Bytes}
    (relinked : w.Relinked w')
    (mine : w'.loop? (a.link pid) = some (l.setInward (a.outlet q pid).side ⟨chunks, true, true⟩))
    (others : ∀ k, k ≠ a.link pid → w'.loop? k = w.loop? k) : a.Shows w' (d.fill q pid chunks) := by
  refine ⟨relinked.operation.trans h.unasked, relinked.background.trans h.alone,
    by rw [relinked.sites]; exact h.seats, by rw [relinked.sites]; exact h.others, fun p hp' => ?_⟩
  obtain ⟨l', hl', carries⟩ := h.links p hp'
  by_cases same : p = pid
  · subst same
    obtain rfl := Option.some.inj (hl.symm.trans hl')
    refine ⟨_, mine, ?_, ?_, fun _ r => ?_⟩
    · rw [Loopback.capacity_setInward]; exact carries.capacity
    · rw [Loopback.closed_setInward]; exact carries.closed
    · rcases Role.eq_or_eq_peer r q with rfl | rfl
      · rw [Loopback.inward_setInward_self, Duel.queue_fill_self]
      · rw [a.side_peer, Loopback.inward_setInward_other, ← a.side_peer, carries.inward spared,
          Duel.queue_fill_of_ne _ fun both => Role.ne_peer q both.1.symm]
  · refine ⟨l', (others _ fun link => same (a.link_inj hp' link)).trans hl', carries.capacity,
      carries.closed, fun open' r => ?_⟩
    rw [Duel.queue_fill_of_ne _ fun both => same both.2]
    exact carries.inward open' r

/-! ### Every task is a step of the duel -/

/-- The world shows the duel `d`, or a duel one step further. -/
def Follows (a : Arena) (d : Duel S) (w : World (Exchange S)) : Prop :=
  a.Shows w d ∨ ∃ d', Duel.Step a.config a.order d d' ∧ a.Shows w d'

variable {v : Relay S} {d₁ : Duel S} {x : Session (Exchange S)}

theorem Shows.follows (agrees : S.Agrees)
    (honest : Duel.Honest a.ak a.nominator a.pids a.config a.order d v) (h : a.Shows w d₁)
    (step : Duel.Step a.config a.order d (d₁.put r x)) (busy : (d₁.session r).isIdle = false)
    (onward : (d₁.session r).Onward x) : a.Follows d (w.setSession (a.seat r) x) := by
  obtain ⟨v', honest'⟩ := honest.step agrees a.terms step
  have side := honest'.side r
  rw [Duel.session_put_self] at side
  exact .inr ⟨_, step, h.put busy onward (side.steady onward.busy)⟩

theorem Shows.outletOf (h : a.Shows w d) (busy : (d.session r).isIdle = false) (hp : pid ∈ a.pids) :
    w.outletOf (a.seat r) pid = some (a.outlet r pid) := by
  obtain ⟨site, hs, seats⟩ := h.seats r
  simp [World.outletOf, hs, seats.attached busy, a.lookup_paths, hp]

theorem Shows.race? (h : a.Shows w d) : w.race? (a.seat r) = some (d.race r) := by
  obtain ⟨site, hs, seats⟩ := h.seats r
  simp [World.race?, hs, seats.session, Duel.race]

theorem Shows.writes (agrees : S.Agrees)
    (honest : Duel.Honest a.ak a.nominator a.pids a.config a.order d v) (h : a.Shows w d)
    {e : Election (Exchange S)} {frame : Bytes} {todo : List Action}
    {winner : Option (PathId × PathHash)} (hp : pid ∈ a.pids)
    (state : (d.session r).state = .racing e (.writing pid (.offered frame) todo winner))
    (can : w.canWrite (a.outlet r pid) (.offered frame) = true) :
    a.Follows d ((w.write (a.outlet r pid) (.offered frame)).2.setSession (a.seat r)
      ((d.session r).wrote e pid (w.write (a.outlet r pid) (.offered frame)).1 todo winner)) := by
  have busy := Duel.isIdle_of_racing state
  obtain ⟨l, hl, carries⟩ := h.links pid hp
  have hl : w.loop? (a.outlet r pid).link = some l := hl
  obtain ⟨progress, mine, others⟩ := World.write_of_loop? hl frame
  rw [World.canWrite_of_loop? hl] at can
  rw [progress]
  by_cases closed : d.Closed pid
  · have refused : l.write (a.outlet r pid).side frame = (.failed .closed, l) := by
      simp [Loopback.write, carries.closed.2 closed]
    rw [refused] at mine ⊢
    have shows := h.untouched (World.relinked_write ..) hl mine others
    exact shows.follows agrees honest (.broke state closed) busy (Session.onward_wrote ..)
  · have inward : l.outward (a.outlet r pid).side = ⟨d.queue r.peer pid, true, true⟩ := by
      rw [Loopback.outward, ← a.side_peer, carries.inward closed]
    have spared : l.closed.isSome = false := by
      simpa [← carries.closed] using closed
    have room : l.hasRoom (a.outlet r pid).side = true := by
      simpa [Loopback.canWrite, spared, inward] using can
    have taken : l.write (a.outlet r pid).side frame = (.ok, l.setInward (a.outlet r.peer pid).side
        ⟨d.queue r.peer pid ++ [frame], true, true⟩) := by
      simp [Loopback.write, spared, inward, room, a.side_peer]
    rw [taken] at mine ⊢
    have shows : a.Shows (w.write (a.outlet r pid) (.offered frame)).2
        (d.fill r.peer pid (d.queue r.peer pid ++ [frame])) :=
      h.fill hp closed hl (World.relinked_write ..) mine others
    exact shows.follows agrees honest (.wrote state closed) busy (Session.onward_wrote ..)

theorem Shows.session (agrees : S.Agrees)
    (honest : Duel.Honest a.ak a.nominator a.pids a.config a.order d v) (h : a.Shows w d)
    (can : w.canMoveSession (a.seat r) = true) : a.Follows d (w.moveSession (a.seat r)) := by
  obtain ⟨site, hs, seats⟩ := h.seats r
  simp only [World.canMoveSession, World.moveSession, hs, seats.session] at can ⊢
  cases state : (d.session r).state with
  | idle | connected | failed => simp [state] at can
  | racing e doing =>
    have busy := Duel.isIdle_of_racing state
    cases doing with
    | acting todo winner =>
      exact h.follows agrees honest (.act state) busy (Session.onward_act ..)
    | listening =>
      have shows := h.meanwhile w.now ((d.session r).listen e w.now w.entropy).2
      exact shows.follows agrees honest (.listen state) busy (Session.onward_listen _ _ _ _ busy)
    | writing pid write todo winner =>
      obtain ⟨running, ⟨frame, rfl⟩, hp, -⟩ := (honest.side r).of_racing state
      have quiet : (d.session r).race.isHalting = false := running.running
      have known := h.outletOf busy hp
      have race : (d.race r).isHalting = false := quiet
      simp only [state, World.canGoOn, h.race?, known, Option.any_some, race, Bool.false_or] at can
      simp only [quiet, known, Bool.false_eq_true, if_false]
      exact h.writes agrees honest hp state can

theorem Shows.reads (agrees : S.Agrees)
    (honest : Duel.Honest a.ak a.nominator a.pids a.config a.order d v) (h : a.Shows w d)
    (busy : (d.session r).isIdle = false) (hp : pid ∈ a.pids)
    (reading : (d.race r).isReading pid = true) :
    a.Follows d ((w.read (a.outlet r pid)).2.setSession (a.seat r) { d.session r with
      race := (d.race r).after (.pump pid (w.read (a.outlet r pid)).1) }) := by
  obtain ⟨l, hl, carries⟩ := h.links pid hp
  have hl : w.loop? (a.outlet r pid).link = some l := hl
  obtain ⟨item, mine, others⟩ := World.read_of_loop? hl
  rw [item]
  by_cases closed : d.Closed pid
  · have ended : l.read (a.outlet r pid).side = (some .ended, l) := by
      simp [Loopback.read, carries.closed.2 closed]
    rw [ended] at mine ⊢
    have shows := h.untouched (World.relinked_read ..) hl mine others
    exact shows.follows agrees honest (.ended closed) busy (Session.onward_pump _ _ _ busy)
  · have spared : l.closed.isSome = false := by simpa [← carries.closed] using closed
    have inward := carries.inward closed r
    cases waiting : d.queue r pid with
    | nil =>
      have nothing : l.read (a.outlet r pid).side = (none, l) := by
        simp [Loopback.read, spared, inward, waiting]
      rw [nothing] at mine ⊢
      have shows := h.untouched (World.relinked_read ..) hl mine others
      exact shows.follows agrees honest .pumped busy (Session.onward_pump _ _ _ busy)
    | cons chunk rest =>
      have taken : l.read (a.outlet r pid).side = (some (.chunk chunk),
          l.setInward (a.outlet r pid).side ⟨rest, true, true⟩) := by
        simp [Loopback.read, spared, inward, waiting]
      rw [taken] at mine ⊢
      have shows : a.Shows (w.read (a.outlet r pid)).2 (d.fill r pid rest) :=
        h.fill hp closed hl (World.relinked_read ..) mine others
      exact shows.follows agrees honest (.took reading closed waiting) busy
        (Session.onward_pump _ _ _ busy)

theorem Shows.pump (agrees : S.Agrees)
    (honest : Duel.Honest a.ak a.nominator a.pids a.config a.order d v) (h : a.Shows w d)
    (can : w.canMove (.pump (a.seat r) pid) = true) : a.Follows d (w.movePump (a.seat r) pid) := by
  have hx : w.session? (a.seat r) = some (d.session r) := by
    obtain ⟨site, hs, seats⟩ := h.seats r
    simp [World.session?, hs, seats.session]
  cases busy : (d.session r).isIdle with
  | true =>
    obtain ⟨start, -⟩ := (honest.side r).waiting busy
    simp [World.canMove, h.race?, Duel.race, start, Session.idle, Race.idle, Race.canPump,
      Race.canGrant, Race.isHalting, Signal.heard, Signal.quiet] at can
  | false =>
    have outlet : w.outletOf (a.seat r) pid = if pid ∈ a.pids then some (a.outlet r pid) else none := by
      obtain ⟨site, hs, seats⟩ := h.seats r
      simp [World.outletOf, hs, seats.attached busy, a.lookup_paths]
    by_cases hp : pid ∈ a.pids
    · rw [if_pos hp] at outlet
      have hc : (d.race r).canPump pid (w.canRead (a.outlet r pid)) = true := by
        simpa [World.canMove, h.race?, outlet] using can
      have moved : w.movePump (a.seat r) pid = if (d.race r).isReading pid = true then
          (w.read (a.outlet r pid)).2.setRace (a.seat r)
            ((d.race r).pump pid (w.read (a.outlet r pid)).1)
          else w.setRace (a.seat r) ((d.race r).pump pid none) := by
        simp only [World.movePump, h.race?, outlet]
        rfl
      rw [moved]
      by_cases reading : (d.race r).isReading pid = true
      · have same := (World.relinked_read (a.outlet r pid) w).sites
        have hx' : (w.read (a.outlet r pid)).2.session? (a.seat r) = some (d.session r) := by
          rw [World.session?, same]; exact hx
        rw [if_pos reading, World.setRace_of_session? hx', ← World.after_pump_of_reading reading]
        exact h.reads agrees honest busy hp reading
      · have still := World.canPump_of_not_reading hc (by simpa [Race.isReading] using reading)
        have after : (d.race r).pump pid none = (d.race r).after (.pump pid none) := by
          simp [Race.after, still]
        rw [if_neg reading, World.setRace_of_session? hx, after]
        exact h.follows agrees honest .pumped busy (Session.onward_pump _ _ _ busy)
    · rw [if_neg hp] at outlet
      simp only [World.movePump, h.race?, outlet]
      exact .inl h

theorem Shows.connect (agrees : S.Agrees)
    (honest : Duel.Honest a.ak a.nominator a.pids a.config a.order d v) (h : a.Shows w d)
    (idle : (d.session r).isIdle = true) : a.Follows d (w.connect (a.seat r)) := by
  obtain ⟨site, hs, seats⟩ := h.seats r
  obtain ⟨start, -⟩ := (honest.side r).waiting idle
  have paths := seats.paths idle
  have filled : a.order r ≠ [] := fun none => a.terms.nonempty (none ▸ a.arranged r).nil_eq.symm
  obtain ⟨race, entered, -, unclosed, -⟩ :=
    Race.open_enter filled ((a.arranged r).nodup_iff.2 a.distinct)
  have step : Duel.Step a.config a.order d (d.put r ((d.session r).connect (Exchange.new S) (a.config r)
    (a.order r) w.now w.entropy).1) := .connect idle
  obtain ⟨v', honest'⟩ := honest.step agrees a.terms step
  have side := honest'.side r
  rw [Duel.session_put_self] at side
  have busy := Session.isIdle_connect (Exchange.new S) (a.config r) (a.order r) w.now (d.session r)
    w.entropy
  rcases hx : (d.session r).connect (Exchange.new S) (a.config r) (a.order r) w.now w.entropy with ⟨x, s'⟩
  rw [hx] at step side busy
  have shows := h.meanwhile w.now s'
  have he : w.connect (a.seat r) = (World.onSite (a.seat r) (fun site => { site with
      paths := [], attached := site.paths, setup := some (site.config.setup (a.order r)), session := x })
      { w with entropy := s' }).carryOut (a.paths r) race x.race := by
    have entered' : (d.session r).race.enter (a.order r) = (.ok (), race) := by rw [start]; exact entered
    simp only [World.connect, hs, seats.session, seats.make, seats.config, paths, a.map_fst_paths, hx,
      entered']
  rw [he]
  refine .inr ⟨_, step, shows.carried (fun site seats => ⟨seats.config, seats.make, rfl, fun idle => ?_,
    fun _ => seats.paths idle⟩) (side.steady busy) ?_ ?_ ?_⟩
  · rw [busy] at idle; cases idle
  · rw [unclosed]; exact List.nil_prefix
  · rw [unclosed]; exact fun pid hp => (List.not_mem_nil hp).elim
  · rw [Duel.race, start]; exact List.nil_subset _

end Arena

end PathRace
