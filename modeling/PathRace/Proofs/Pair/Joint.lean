import PathRace.Proofs.Pair.Meeting

/-! The two ends of one path in an honest run. `Joint` gives, for each point of the handshake and of the
nomination, the stage of either end and the bytes it has not yet taken. The next frame is one that its
end accepts (`Joint.take`). -/

namespace PathRace

/-- Key agreement gives both sides the same secret, and never fails for keys of the suite. -/
def Suite.Agrees (S : Suite) : Prop :=
  ∀ a b, ∃ shared, S.agree a (S.publicKey b) = some shared ∧ S.agree b (S.publicKey a) = some shared

/-- The secrets and challenges that the two ends of a path have exchanged. -/
structure Accord (S : Suite) where
  secret : Role → Octets 32
  challenge : Role → Challenge
  shared : Octets 32
  agreed : ∀ r, S.agree (secret r) (S.publicKey (secret r.peer)) = some shared

namespace Accord

variable {S : Suite} (ak : AuthKey) (pid : PathId) (a : Accord S)

def keys : PathKeys := S.pathKeys ak a.shared

def lane (r : Role) : Lane := .start ((a.keys ak).sender r) pid (.outbound r)

/-- The transport of an end that is ready: the responder has sealed one message with it, the initiator
none. -/
def ready : Role → Transport
  | .initiator => ⟨a.lane ak pid .initiator, (a.lane ak pid .responder).advance, (a.keys ak).hash⟩
  | .responder => ⟨(a.lane ak pid .responder).advance, a.lane ak pid .initiator, (a.keys ak).hash⟩

def nominating (r : Role) : Transport :=
  { a.ready ak pid r with tx := (a.ready ak pid r).tx.advance }

/-- The transport of the end that has received the nomination. -/
def following (r : Role) : Transport :=
  { a.ready ak pid r with rx := (a.ready ak pid r).rx.advance }

theorem rx_ready (r : Role) : (a.ready ak pid r.peer).rx = (a.ready ak pid r).tx := by
  cases r <;> rfl

theorem hash_ready (r : Role) : (a.ready ak pid r).hash = (a.keys ak).hash := by
  cases r <;> rfl

theorem isExhausted_lane (r : Role) : (a.lane ak pid r).isExhausted = false := rfl

theorem isExhausted_ready (r : Role) : (a.ready ak pid r).tx.isExhausted = false := by
  cases r <;> rfl

end Accord

namespace Pair

variable {S : Suite}

/-- The stages of both ends of a path, and the bytes each has still to process, at every point after the
first hello. -/
inductive Joint (S : Suite) (ak : AuthKey) (nominator : Role) (pid : PathId) (stage : Role → Stage)
    (pending : Role → Bytes) : Prop
  | greeted {secret : Octets 32} {challenge : Challenge} {sentAt : Nat}
      (hi : stage .initiator = .awaitingHello)
      (hr : stage .responder = .awaitingAuthHello secret challenge sentAt)
      (pi : pending .initiator = (Lane.start (S.authKey ak .responder) pid
        (.outbound .responder)).framed S (.hello challenge (S.publicKey secret)))
      (pr : pending .responder = [])
  | answered (a : Accord S) {sentAt sentAt' : Nat}
      (hi : stage .initiator =
        .awaitingAuth (.start .initiator pid (a.keys ak)) (a.challenge .initiator) sentAt)
      (hr : stage .responder =
        .awaitingAuthHello (a.secret .responder) (a.challenge .responder) sentAt')
      (pi : pending .initiator = [])
      (pr : pending .responder = (Lane.start (S.authKey ak .initiator) pid
        (.outbound .initiator)).framed S (.authHello (a.challenge .responder)
          (a.challenge .initiator) (S.publicKey (a.secret .initiator))))
  | proven (a : Accord S) {sentAt : Nat}
      (hi : stage .initiator =
        .awaitingAuth (.start .initiator pid (a.keys ak)) (a.challenge .initiator) sentAt)
      (hr : stage .responder = .ready (a.ready ak pid .responder))
      (pi : pending .initiator =
        (a.lane ak pid .responder).framed S (.auth (a.challenge .initiator)))
      (pr : pending .responder = [])
  | ready (a : Accord S) (stages : ∀ r, stage r = .ready (a.ready ak pid r))
      (quiet : ∀ r, pending r = [])
  /-- The responder has nominated before the initiator is ready. -/
  | ahead (a : Accord S) {sentAt : Nat} (hn : nominator = .responder)
      (hi : stage .initiator =
        .awaitingAuth (.start .initiator pid (a.keys ak)) (a.challenge .initiator) sentAt)
      (hr : stage .responder = .nominated (a.nominating ak pid .responder))
      (pi : pending .initiator =
        (a.lane ak pid .responder).framed S (.auth (a.challenge .initiator)) ++
          (a.ready ak pid .responder).tx.framed S .nominate)
      (pr : pending .responder = [])
  | called (a : Accord S) (mine : stage nominator = .nominated (a.nominating ak pid nominator))
      (theirs : stage nominator.peer = .ready (a.ready ak pid nominator.peer))
      (pn : pending nominator = [])
      (pp : pending nominator.peer = (a.ready ak pid nominator).tx.framed S .nominate)
  | settled (a : Accord S) (mine : stage nominator = .nominated (a.nominating ak pid nominator))
      (theirs : stage nominator.peer = .nominated (a.following ak pid nominator.peer))
      (quiet : ∀ r, pending r = [])

def passed (pending : Role → Bytes) (r : Role) (rest answer : Bytes) : Role → Bytes :=
  Function.update (Function.update pending r rest) r.peer (pending r.peer ++ answer)

@[simp] theorem passed_self (pending : Role → Bytes) (r : Role) (rest answer : Bytes) :
    passed pending r rest answer r = rest := by
  simp [passed, Role.ne_peer]

@[simp] theorem passed_peer (pending : Role → Bytes) (r : Role) (rest answer : Bytes) :
    passed pending r rest answer r.peer = pending r.peer ++ answer := by
  simp [passed]

variable {ak : AuthKey} {nominator : Role} {pid : PathId} {stage : Role → Stage}
  {pending : Role → Bytes}

/-- The frame of the message is the next that the end has to process, and it accepts it. -/
def Takes (S : Suite) (ak : AuthKey) (nominator : Role) (pid : PathId) (stage : Role → Stage)
    (pending : Role → Bytes) (r : Role) : Prop :=
  ∃ l m rest, pending r = Lane.framed S m l ++ rest ∧ Lane.Fits m ∧ ∀ now s, ∃ stage' o,
    (Device.step S ⟨r, r == nominator, ak⟩ pid now (stage r)
      (S.encrypt l.key l.nonce m.encode) s).result = .ok (stage', o) ∧
    Joint S ak nominator pid (Function.update stage r stage')
      (passed pending r rest (o.out.getD []))

theorem takes_hello (agrees : S.Agrees) {secret : Octets 32} {challenge : Challenge} {sentAt : Nat}
    (hi : stage .initiator = .awaitingHello)
    (hr : stage .responder = .awaitingAuthHello secret challenge sentAt)
    (pi : pending .initiator = (Lane.start (S.authKey ak .responder) pid
      (.outbound .responder)).framed S (.hello challenge (S.publicKey secret)))
    (pr : pending .responder = []) : Takes S ak nominator pid stage pending .initiator := by
  refine ⟨_, _, [], by rw [pi, List.append_nil], Lane.fits_hello .., fun now s => ?_⟩
  obtain ⟨shared, mine, theirs⟩ := agrees (s.draw 32).1 secret
  let a : Accord S := {
    secret := fun | .initiator => (s.draw 32).1 | .responder => secret
    challenge := fun | .initiator => ((s.draw 32).2.draw 16).1 | .responder => challenge
    shared
    agreed := fun | .initiator => mine | .responder => theirs }
  have opened := Lane.receive_encrypt (S := S) (Lane.isExhausted_start (S.authKey ak .responder) pid
    (.outbound .responder)) (.hello challenge (S.publicKey secret))
  refine ⟨_, _, by rw [hi]; exact Device.step_of_hello opened mine,
    @Joint.answered _ _ _ _ _ _ a now sentAt ?_ ?_ ?_ ?_⟩
  · exact Function.update_self ..
  · exact (Function.update_of_ne (by decide) ..).trans hr
  · exact passed_self ..
  · exact (passed_peer pending .initiator ..).trans (by simp only [Role.peer, pr]; rfl)

theorem takes_authHello {a : Accord S} {sentAt sentAt' : Nat}
    (hi : stage .initiator =
      .awaitingAuth (.start .initiator pid (a.keys ak)) (a.challenge .initiator) sentAt)
    (hr : stage .responder =
      .awaitingAuthHello (a.secret .responder) (a.challenge .responder) sentAt')
    (pi : pending .initiator = [])
    (pr : pending .responder = (Lane.start (S.authKey ak .initiator) pid
      (.outbound .initiator)).framed S (.authHello (a.challenge .responder)
        (a.challenge .initiator) (S.publicKey (a.secret .initiator)))) :
    Takes S ak nominator pid stage pending .responder := by
  refine ⟨_, _, [], by rw [pr, List.append_nil], Lane.fits_authHello .., fun now s => ?_⟩
  have opened := Lane.receive_encrypt (S := S) (Lane.isExhausted_start (S.authKey ak .initiator) pid
    (.outbound .initiator)) (.authHello (a.challenge .responder) (a.challenge .initiator)
      (S.publicKey (a.secret .initiator)))
  refine ⟨_, _, by rw [hr]; exact Device.step_of_authHello opened (a.agreed .responder),
    @Joint.proven _ _ _ _ _ _ a sentAt ?_ ?_ ?_ ?_⟩
  · exact (Function.update_of_ne (by decide) ..).trans hi
  · exact Function.update_self ..
  · exact (passed_peer pending .responder ..).trans (by simp only [Role.peer, pi]; rfl)
  · exact passed_self ..

/-- The initiator becomes ready with the responder's answer, whatever follows that. -/
theorem takes_auth {a : Accord S} {sentAt : Nat} {rest : Bytes}
    (hi : stage .initiator =
      .awaitingAuth (.start .initiator pid (a.keys ak)) (a.challenge .initiator) sentAt)
    (pi : pending .initiator =
      (a.lane ak pid .responder).framed S (.auth (a.challenge .initiator)) ++ rest)
    (next : Joint S ak nominator pid
      (Function.update stage .initiator (.ready (a.ready ak pid .initiator)))
      (passed pending .initiator rest [])) : Takes S ak nominator pid stage pending .initiator := by
  refine ⟨_, _, rest, pi, Lane.fits_auth .., fun now s => ?_⟩
  have opened := Lane.receive_encrypt (S := S) (a.isExhausted_lane ak pid .responder)
    (.auth (a.challenge .initiator))
  exact ⟨_, _, by rw [hi]; exact Device.step_of_auth opened, next⟩

theorem takes_nominate {a : Accord S}
    (mine : stage nominator = .nominated (a.nominating ak pid nominator))
    (theirs : stage nominator.peer = .ready (a.ready ak pid nominator.peer))
    (pn : pending nominator = [])
    (pp : pending nominator.peer = (a.ready ak pid nominator).tx.framed S .nominate) :
    Takes S ak nominator pid stage pending nominator.peer := by
  refine ⟨_, _, [], by rw [pp, List.append_nil], Lane.fits_nominate, fun now s => ?_⟩
  have opened := Lane.receive_encrypt (S := S) (a.isExhausted_ready ak pid nominator) .nominate
  rw [← a.rx_ready] at opened
  have follows : (nominator.peer == nominator) = false := beq_false_of_ne (Role.ne_peer _).symm
  refine ⟨_, _, by rw [theirs, ← a.rx_ready]; exact Device.step_of_nominate opened follows,
    .settled a ?_ ?_ fun r => ?_⟩
  · exact (Function.update_of_ne (Role.ne_peer nominator) ..).trans mine
  · exact Function.update_self ..
  · rcases Role.eq_or_eq_peer r nominator.peer with rfl | rfl
    · exact passed_self ..
    · rw [passed_peer, Role.peer_peer, pn]; rfl

/-- An end accepts whatever it has to process. -/
theorem Joint.take (agrees : S.Agrees) (h : Joint S ak nominator pid stage pending) (r : Role) :
    pending r = [] ∨ Takes S ak nominator pid stage pending r := by
  cases h with
  | greeted hi hr pi pr =>
    cases r with
    | initiator => exact .inr (takes_hello agrees hi hr pi pr)
    | responder => exact .inl pr
  | answered a hi hr pi pr =>
    cases r with
    | initiator => exact .inl pi
    | responder => exact .inr (takes_authHello hi hr pi pr)
  | proven a hi hr pi pr =>
    cases r with
    | responder => exact .inl pr
    | initiator =>
      refine .inr (takes_auth hi (by rw [pi, List.append_nil]) (.ready a (fun r => ?_) fun r => ?_))
      · cases r with
        | initiator => exact Function.update_self ..
        | responder => exact (Function.update_of_ne (by decide) ..).trans hr
      · cases r with
        | initiator => exact passed_self ..
        | responder => exact (passed_peer pending .initiator ..).trans (by simp only [Role.peer, pr]; rfl)
  | ready a stages quiet => exact .inl (quiet r)
  | ahead a hn hi hr pi pr =>
    subst hn
    cases r with
    | responder => exact .inl pr
    | initiator =>
      refine .inr (takes_auth hi pi (.called a ?_ ?_ ?_ ?_))
      · exact (Function.update_of_ne (by decide) ..).trans hr
      · exact Function.update_self ..
      · exact (passed_peer pending .initiator ..).trans (by simp only [Role.peer, pr]; rfl)
      · exact passed_self ..
  | called a mine theirs pn pp =>
    rcases Role.eq_or_eq_peer r nominator with rfl | rfl
    · exact .inl pn
    · exact .inr (takes_nominate mine theirs pn pp)
  | settled a mine theirs quiet => exact .inl (quiet r)

theorem Joint.nominate (h : Joint S ak nominator pid stage pending) {transport : Transport}
    (hs : stage nominator = .ready transport) :
    transport.tx.isExhausted = false ∧ Joint S ak nominator pid
      (Function.update stage nominator (.nominated { transport with tx := transport.tx.advance }))
      (passed pending nominator (pending nominator) (transport.tx.framed S .nominate)) := by
  cases h with
  | greeted hi hr => cases nominator <;> simp_all
  | answered a hi hr => cases nominator <;> simp_all
  | @proven a sentAt hi hr pi pr =>
    cases nominator with
    | initiator => simp [hi] at hs
    | responder =>
      obtain rfl : a.ready ak pid .responder = transport := by simpa [hr] using hs
      refine ⟨a.isExhausted_ready ak pid .responder,
        @Joint.ahead _ _ _ _ _ _ a sentAt rfl ?_ ?_ ?_ ?_⟩
      · exact (Function.update_of_ne (by decide) ..).trans hi
      · exact Function.update_self ..
      · exact (passed_peer pending .responder ..).trans (by simp only [Role.peer, pi])
      · exact (passed_self ..).trans pr
  | ready a stages quiet =>
    obtain rfl : a.ready ak pid nominator = transport := by simpa [stages nominator] using hs
    refine ⟨a.isExhausted_ready ak pid nominator, .called a ?_ ?_ ?_ ?_⟩
    · exact Function.update_self ..
    · exact (Function.update_of_ne (Role.ne_peer nominator).symm ..).trans (stages nominator.peer)
    · exact (passed_self ..).trans (quiet nominator)
    · exact (passed_peer ..).trans (by rw [quiet]; rfl)
  | ahead a hn hi hr =>
    subst hn
    simp [hr] at hs
  | called a mine => simp [mine] at hs
  | settled a mine => simp [mine] at hs

theorem Joint.works (h : Joint S ak nominator pid stage pending) (r : Role) : stage r ≠ .failed := by
  cases h with
  | greeted hi hr | answered _ hi hr | proven _ hi hr | ahead _ _ hi hr => cases r <;> simp [hi, hr]
  | ready a stages => simp [stages r]
  | called a mine theirs | settled a mine theirs =>
    rcases Role.eq_or_eq_peer r nominator with rfl | rfl <;> simp [mine, theirs]

/-! ### Progress of a path -/

theorem Joint.precedes (h : Joint S ak nominator pid stage pending)
    (hn : (stage nominator.peer).isNominated = true) : (stage nominator).isNominated = true := by
  cases h with
  | greeted hi hr => cases nominator <;> simp_all [Role.peer, Stage.isNominated]
  | answered _ hi hr => cases nominator <;> simp_all [Role.peer, Stage.isNominated]
  | proven _ hi hr => cases nominator <;> simp_all [Role.peer, Stage.isNominated]
  | ready a stages => simp [stages, Stage.isNominated] at hn
  | ahead a hp hi hr => subst hp; simp [hr, Stage.isNominated]
  | called a mine | settled a mine => simp [mine, Stage.isNominated]

theorem Joint.begun (h : Joint S ak nominator pid stage pending)
    (hn : (stage nominator).isNominated = true) (r : Role) : stage r ≠ .awaitingHello := by
  cases h with
  | greeted hi hr => cases nominator <;> simp_all [Stage.isNominated]
  | answered _ hi hr => cases nominator <;> simp_all [Stage.isNominated]
  | proven _ hi hr => cases nominator <;> simp_all [Stage.isNominated]
  | ready a stages => simp [stages, Stage.isNominated] at hn
  | ahead a hp hi hr => cases r <;> simp [hi, hr]
  | called a mine theirs | settled a mine theirs =>
    rcases Role.eq_or_eq_peer r nominator with rfl | rfl <;> simp [mine, theirs]

/-- When no bytes are pending and nothing has been nominated, both ends are ready. -/
theorem Joint.ready_of_quiet (h : Joint S ak nominator pid stage pending)
    (quiet : ∀ r, pending r = []) (hn : (stage nominator).isNominated = false) :
    ∃ a : Accord S, ∀ r, stage r = .ready (a.ready ak pid r) := by
  cases h with
  | greeted hi hr pi => exact (Lane.framed_ne_nil _ _ (pi.symm.trans (quiet _))).elim
  | answered a hi hr pi pr => exact (Lane.framed_ne_nil _ _ (pr.symm.trans (quiet _))).elim
  | proven a hi hr pi => exact (Lane.framed_ne_nil _ _ (pi.symm.trans (quiet _))).elim
  | ready a stages => exact ⟨a, stages⟩
  | ahead a hp hi hr => subst hp; simp [hr, Stage.isNominated] at hn
  | called a mine | settled a mine => simp [mine, Stage.isNominated] at hn

/-- When no bytes are pending after a nomination, both ends have nominated. -/
theorem Joint.settled_of_quiet (h : Joint S ak nominator pid stage pending)
    (hn : (stage nominator).isNominated = true) (quiet : pending nominator.peer = []) :
    ∃ a : Accord S, stage nominator = .nominated (a.nominating ak pid nominator) ∧
      stage nominator.peer = .nominated (a.following ak pid nominator.peer) := by
  cases h with
  | greeted hi hr => cases nominator <;> simp_all [Stage.isNominated]
  | answered _ hi hr => cases nominator <;> simp_all [Stage.isNominated]
  | proven _ hi hr => cases nominator <;> simp_all [Stage.isNominated]
  | ready a stages => simp [stages, Stage.isNominated] at hn
  | ahead a hp hi hr pi =>
    subst hp
    exact (Lane.framed_ne_nil _ _ (List.append_eq_nil_iff.1 (pi.symm.trans quiet)).1).elim
  | called a mine theirs pn pp => exact (Lane.framed_ne_nil _ _ (pp.symm.trans quiet)).elim
  | settled a mine theirs => exact ⟨a, mine, theirs⟩

theorem Joint.hash_eq (h : Joint S ak nominator pid stage pending) {t t' : Transport}
    (mine : stage nominator = .nominated t) (theirs : stage nominator.peer = .nominated t') :
    t.hash = t'.hash := by
  cases h with
  | greeted hi hr => cases nominator <;> simp_all
  | answered _ hi hr => cases nominator <;> simp_all
  | proven _ hi hr => cases nominator <;> simp_all
  | ready a stages => simp [stages] at mine
  | ahead a hn hi hr => subst hn; simp [Role.peer, hi] at theirs
  | called a mine' theirs' => simp [theirs'] at theirs
  | settled a mine' theirs' =>
    obtain rfl := Stage.nominated.inj (mine'.symm.trans mine)
    obtain rfl := Stage.nominated.inj (theirs'.symm.trans theirs)
    exact (a.hash_ready ak pid nominator).trans (a.hash_ready ak pid nominator.peer).symm

end Pair

end PathRace
