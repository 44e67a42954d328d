import PathRace.Proofs.Pair.Meeting

/-! What two devices know of each other under an arbitrary network (`Sound`). The nonce of a sealing
identifies its sender and its path, and a device seals at most one public key per path. So the keys that
a device has for a path come from one key of each side (`Agreed`), and a nomination that is accepted was
reported by the device that sealed it. -/

namespace PathRace

def Message.key? : Message → Option PublicKey
  | hello _ key | authHello _ _ key => some key
  | _ => none

/-- The lanes of a path with these keys, at any counter values. -/
structure Transport.Of (role : Role) (pid : PathId) (keys : PathKeys) (t : Transport) : Prop where
  txKey : t.tx.key = keys.sender role
  txPid : t.tx.pid = pid
  txDirection : t.tx.direction = .outbound role
  rxKey : t.rx.key = keys.sender role.peer
  rxPid : t.rx.pid = pid
  rxDirection : t.rx.direction = .outbound role.peer
  hash : t.hash = keys.hash

theorem Transport.of_start (role : Role) (pid : PathId) (keys : PathKeys) :
    (start role pid keys).Of role pid keys := ⟨rfl, rfl, rfl, rfl, rfl, rfl, rfl⟩

section

variable {S : Suite} {role : Role} {pid : PathId} {keys : PathKeys} {t : Transport}

theorem Transport.Of.advance_tx (h : t.Of role pid keys) :
    Transport.Of role pid keys { t with tx := t.tx.advance } :=
  ⟨h.txKey, h.txPid, h.txDirection, h.rxKey, h.rxPid, h.rxDirection, h.hash⟩

theorem Transport.Of.send (h : t.Of role pid keys) (m : Message) :
    Transport.Of role pid keys { t with tx := (t.tx.send S m).lane } := by
  cases hl : t.tx.isExhausted with
  | true => rw [Lane.send_of_exhausted hl]; exact h
  | false => rw [(Lane.used_send hl m).1]; exact h.advance_tx

theorem Transport.Of.receive (h : t.Of role pid keys) {c : Bytes} {m : Message} {rx : Lane}
    (hr : t.rx.receive S c = (.ok m, rx)) : Transport.Of role pid keys { t with rx } := by
  obtain ⟨-, -, rfl⟩ := Lane.receive_ok hr
  exact ⟨h.txKey, h.txPid, h.txDirection, h.rxKey, h.rxPid, h.rxDirection, h.hash⟩

end

namespace Pair

variable {S : Suite}

/-- The device has sealed message `m` for the path. -/
def Sealed (w : Pair S) (r : Role) (pid : PathId) (m : Message) : Prop :=
  ∃ u ∈ (w.engine r).used,
    (∃ count, u.nonce = Nonce.make pid (.outbound r) count) ∧ u.plaintext = m.encode

/-- The device has sealed the public key of `secret` for the path. -/
def Offered (w : Pair S) (r : Role) (pid : PathId) (secret : Octets 32) : Prop :=
  ∃ m, w.Sealed r pid m ∧ m.key? = some (S.publicKey secret)

/-- The device has derived `keys` for the path from a secret of its own and a key that its peer has
offered. -/
def Agreed (ak : AuthKey) (w : Pair S) (r : Role) (pid : PathId) (keys : PathKeys) : Prop :=
  ∃ secret m key shared, w.Offered r pid secret ∧ w.Sealed r.peer pid m ∧ m.key? = some key ∧
    S.agree secret key = some shared ∧ keys = S.pathKeys ak shared

/-- What must have been sealed when a path is at a stage. -/
def Backs (ak : AuthKey) (w : Pair S) (r : Role) (pid : PathId) : Stage → Prop
  | .awaitingHello => ∀ m, w.Sealed r pid m → m.key? = none
  | .awaitingAuthHello secret .. => w.Offered r pid secret
  | .awaitingAuth transport .. | .ready transport | .nominated transport =>
    ∃ keys, w.Agreed ak r pid keys ∧ transport.Of r pid keys
  | .failed => True

/-- Every report of the nominator's peer comes after the same report of the nominator. -/
def Preceded (nominator : Role) (log : List (Role × PathId × Outcome)) : Prop :=
  ∀ later earlier pid o hash, log = later ++ (nominator.peer, pid, o) :: earlier →
    o.update = some (.nominated hash) →
    ∃ o', (nominator, pid, o') ∈ earlier ∧ o'.update = some (.nominated hash)

/-- The invariant of authentic calls. -/
structure Sound (ak : AuthKey) (nominator : Role) (w : Pair S) : Prop where
  device : ∀ r, (w.engine r).device = ⟨r, r == nominator, ak⟩
  settled : ∀ r, (w.engine r).Settled
  unstarted : ∀ r, (w.engine r).started = false →
    (w.engine r).used = [] ∧ ((w.engine r).strands.map Prod.fst).Nodup ∧
      (w.engine r).nominated = none
  nonces : ∀ r, ∀ u ∈ (w.engine r).used,
    ∃ pid count m, u.nonce = Nonce.make pid (.outbound r) count ∧ u.plaintext = Message.encode m
  offers : ∀ r pid m key, w.Sealed r pid m → m.key? = some key → ∃ secret, key = S.publicKey secret
  unique : ∀ r pid m m', w.Sealed r pid m → w.Sealed r pid m' → m.key?.isSome = true →
    m'.key?.isSome = true → m = m'
  backed : ∀ r pid strand, (w.engine r).strand? pid = some strand → w.Backs ak r pid strand.stage
  chosen : ∀ r pid, w.Sealed r pid .nominate → ∃ hash, w.Reported r pid hash
  reported : ∀ r pid hash, w.Reported r pid hash →
    (w.engine r).nominated = some pid ∧ ∃ keys, w.Agreed ak r pid keys ∧ hash = keys.hash
  named : ∀ r pid, (w.engine r).nominated = some pid → ∃ hash, w.Reported r pid hash
  preceded : Preceded nominator w.log

variable {ak : AuthKey} {nominator : Role} {w w' : Pair S}

/-! ### The log of sealings only grows -/

theorem Sealed.mono (hu : ∀ r, (w.engine r).used ⊆ (w'.engine r).used) {r : Role} {pid : PathId}
    {m : Message} (h : w.Sealed r pid m) : w'.Sealed r pid m := by
  obtain ⟨u, hm, rest⟩ := h
  exact ⟨u, hu r hm, rest⟩

theorem Offered.mono (hu : ∀ r, (w.engine r).used ⊆ (w'.engine r).used) {r : Role} {pid : PathId}
    {secret : Octets 32} (h : w.Offered r pid secret) : w'.Offered r pid secret := by
  obtain ⟨m, hs, hk⟩ := h
  exact ⟨m, hs.mono hu, hk⟩

theorem Agreed.mono (hu : ∀ r, (w.engine r).used ⊆ (w'.engine r).used) {r : Role} {pid : PathId}
    {keys : PathKeys} (h : w.Agreed ak r pid keys) : w'.Agreed ak r pid keys := by
  obtain ⟨secret, m, key, shared, ho, hs, rest⟩ := h
  exact ⟨secret, m, key, shared, ho.mono hu, hs.mono hu, rest⟩

theorem Backs.mono (hu : ∀ r, (w.engine r).used ⊆ (w'.engine r).used) {r : Role} {pid : PathId}
    {stage : Stage} (h : w.Backs ak r pid stage)
    (quiet : stage = .awaitingHello → ∀ m, w'.Sealed r pid m → m.key? = none) :
    w'.Backs ak r pid stage := by
  cases stage with
  | awaitingHello => exact quiet rfl
  | awaitingAuthHello => exact Offered.mono hu h
  | awaitingAuth | ready | nominated =>
    obtain ⟨keys, ha, ht⟩ := h
    exact ⟨keys, ha.mono hu, ht⟩
  | failed => trivial

/-- Both sides of a path derive the same keys. -/
theorem Sound.agreed_eq (symm : ∀ a b, S.agree a (S.publicKey b) = S.agree b (S.publicKey a))
    (h : w.Sound ak nominator) {r : Role} {pid : PathId} {keys keys' : PathKeys}
    (ha : w.Agreed ak r pid keys) (hb : w.Agreed ak r.peer pid keys') : keys = keys' := by
  obtain ⟨secret, m, key, shared, ⟨own, hown, hk⟩, hm, hmk, hs, rfl⟩ := ha
  obtain ⟨secret', m', key', shared', ⟨own', hown', hk'⟩, hm', hmk', hs', rfl⟩ := hb
  rw [Role.peer_peer] at hm'
  obtain rfl := h.unique _ _ _ _ hown hm' (by simp [hk]) (by simp [hmk'])
  obtain rfl := h.unique _ _ _ _ hown' hm (by simp [hk']) (by simp [hmk])
  obtain rfl : S.publicKey secret = key' := by simpa [hk] using hmk'
  obtain rfl : S.publicKey secret' = key := by simpa [hk'] using hmk
  rw [symm, hs'] at hs
  rw [Option.some.inj hs]

theorem origin_of_receive (nonces : ∀ r, ∀ u ∈ (w.engine r).used,
      ∃ pid count m, u.nonce = Nonce.make pid (.outbound r) count ∧ u.plaintext = Message.encode m)
    {r : Role} {call : Call} (auth : w.Authentic (r, call)) {lane lane' : Lane} {c : Bytes}
    {m : Message} (ho : (w.engine r).opening? call = some (lane, c))
    (hr : lane.receive S c = (.ok m, lane')) (hd : lane.direction = .outbound r.peer) :
    ∃ u ∈ (w.engine r.peer).used, u.nonce = Nonce.make lane.pid (.outbound r.peer) lane.counter ∧
      u.plaintext = m.encode ∧ c.length = m.encode.length + Limit.tagSize := by
  obtain ⟨-, hdec, -⟩ := Lane.receive_ok hr
  obtain ⟨u, hu, hk, hn, hc⟩ := auth lane c ho (by simp [hdec])
  have plain : u.plaintext = m.encode := by
    rw [← hk, ← hn, ← hc, S.decrypt_encrypt] at hdec
    exact Option.some.inj hdec
  obtain ⟨q, hq⟩ := mem_sealings.1 hu
  obtain ⟨pid, count, m', hn', -⟩ := nonces q u hq
  have hl : lane.nonce = Nonce.make lane.pid (.outbound r.peer) lane.counter := by
    rw [Lane.nonce, hd]
  obtain ⟨rfl, hdir, rfl⟩ := Nonce.make_inj (hn'.symm.trans (hn.trans hl))
  obtain rfl := Direction.outbound_inj hdir
  exact ⟨u, hq, hn', plain, by rw [← hc, S.length_encrypt, plain]⟩

theorem Sound.sealed_of_receive (h : w.Sound ak nominator) {r : Role} {call : Call}
    (auth : w.Authentic (r, call)) {lane lane' : Lane} {c : Bytes} {m : Message}
    (ho : (w.engine r).opening? call = some (lane, c)) (hr : lane.receive S c = (.ok m, lane'))
    (hd : lane.direction = .outbound r.peer) : w.Sealed r.peer lane.pid m := by
  obtain ⟨u, hu, hn, plain, -⟩ := origin_of_receive h.nonces auth ho hr hd
  exact ⟨u, hu, ⟨lane.counter, hn⟩, plain⟩

/-! ### A turn -/

/-- What a turn may seal: a public key only on a path that has sealed none, and a nomination only with
the report of it. -/
structure Spent (S : Suite) (r : Role) (pid : PathId) (old : Stage) (o : Option Outcome)
    (u : Sealing) (m : Message) : Prop where
  nonce : ∃ count, u.nonce = Nonce.make pid (.outbound r) count
  plaintext : u.plaintext = m.encode
  key : ∀ key, m.key? = some key → old = .awaitingHello ∧ ∃ secret, key = S.publicKey secret
  nominate : m = .nominate → ∃ o' hash, o = some o' ∧ o'.update = some (.nominated hash)

theorem spent_of_lane {r : Role} {pid : PathId} {old : Stage} {o : Option Outcome} {l : Lane}
    {m : Message} (hp : l.pid = pid) (hd : l.direction = .outbound r) (hk : m.key? = none)
    (hn : m = .nominate → ∃ o' hash, o = some o' ∧ o'.update = some (.nominated hash)) :
    Spent S r pid old o (l.sealing m.encode) m :=
  ⟨⟨l.counter, by rw [← hp, ← hd]; rfl⟩, rfl, by simp [hk], hn⟩

theorem spent_of_deed (h : w.Sound ak nominator) {r : Role} {pid : PathId} {call : Call}
    {old new : Strand} {used : List Sealing} {o : Option Outcome}
    (deed : Exchange.Deed S (w.engine r).device pid call old new used o)
    (backs : w.Backs ak r pid old.stage) :
    used.length ≤ 1 ∧ ∀ u ∈ used, ∃ m, Spent S r pid old.stage o u m := by
  have hr : (w.engine r).device.role = r := by rw [h.device r]
  cases deed with
  | fed | refused | exhausted => exact ⟨by simp, by simp⟩
  | nominated nominator fresh =>
    obtain ⟨keys, -, ht⟩ := backs
    refine ⟨by simp, fun u hu => ⟨.nominate, ?_⟩⟩
    obtain rfl := List.mem_singleton.1 hu
    exact spent_of_lane ht.txPid ht.txDirection rfl fun _ => ⟨_, _, rfl, rfl⟩
  | @sent inbox transport data o frame =>
    obtain ⟨keys, -, ht⟩ := backs
    cases hl : transport.tx.isExhausted with
    | true => simp [Lane.send_of_exhausted hl]
    | false =>
      rw [(Lane.used_send hl _).2]
      refine ⟨by simp, fun u hu => ⟨.ulp data, ?_⟩⟩
      obtain rfl := List.mem_singleton.1 hu
      exact spent_of_lane ht.txPid ht.txDirection rfl (by simp)
  | took next advance =>
    cases advance with
    | confirmed | nominated | carried => exact ⟨by simp, by simp⟩
    | @answered secret own challenge _ _ _ opened agreed =>
      refine ⟨by simp, fun u hu => ⟨.authHello challenge own (S.publicKey secret), ?_⟩⟩
      obtain rfl := List.mem_singleton.1 hu
      refine ⟨⟨0, ?_⟩, rfl, fun key hk => ⟨rfl, secret, (Option.some.inj hk).symm⟩, by simp⟩
      simp [Lane.sealing, Lane.nonce, Device.authLane, Lane.start, hr]
    | @proven _ _ challenge _ _ _ _ _ opened agreed start =>
      subst start
      refine ⟨by simp, fun u hu => ⟨.auth challenge, ?_⟩⟩
      obtain rfl := List.mem_singleton.1 hu
      exact spent_of_lane rfl (by simp [Transport.start, Lane.start, hr]) rfl (by simp)

theorem sealed_set {r q : Role} {pid p : PathId} {old new : Strand} {used : List Sealing}
    {x' : Exchange S} (t : Exchange.Turned (w.engine r) x' pid old new used)
    (ys : List (PathId × Outcome)) {m : Message} :
    (w.set r x' ys).Sealed q p m ↔ w.Sealed q p m ∨ q = r ∧ ∃ u ∈ used,
      (∃ count, u.nonce = Nonce.make p (.outbound r) count) ∧ u.plaintext = m.encode := by
  by_cases hq : q = r
  · subst hq
    simp only [Sealed, engine_set_self, t.used, List.mem_append, true_and]
    constructor
    · rintro ⟨u, hu | hu, rest⟩
      · exact .inr ⟨u, hu, rest⟩
      · exact .inl ⟨u, hu, rest⟩
    · rintro (⟨u, hu, rest⟩ | ⟨u, hu, rest⟩)
      · exact ⟨u, .inr hu, rest⟩
      · exact ⟨u, .inl hu, rest⟩
  · simp [Sealed, engine_set_of_ne w hq, hq]

theorem report_of_deed {d : Device} {pid : PathId} {call : Call} {old new : Strand}
    {used : List Sealing} {o : Option Outcome} (deed : Exchange.Deed S d pid call old new used o)
    {o' : Outcome} {hash : PathHash} (ho : o = some o') (hu : o'.update = some (.nominated hash)) :
    ∃ t, old.stage = .ready t ∧ hash = t.hash ∧ new.stage.isNominated = true ∧
      (d.isNominator = true ∨ ∃ c inbox' now s rx, call = .processFrame pid now s ∧
        old.inbox.next = (.ok (some c), inbox') ∧ t.rx.receive S c = (.ok .nominate, rx)) := by
  subst ho
  cases deed with
  | nominated nominator =>
    exact ⟨_, rfl, by simpa [Outcome.adding, eq_comm] using hu, rfl, .inl nominator⟩
  | sent frame =>
    obtain ⟨frame, -, rfl⟩ := Option.map_eq_some_iff.1 frame.symm
    simp [Outcome.frame, Outcome.none] at hu
  | took next advance =>
    cases advance with
    | answered | proven | confirmed | carried =>
      simp [Outcome.frame, Outcome.adding, Outcome.news, Outcome.data, Outcome.none] at hu
    | nominated opened =>
      exact ⟨_, rfl, by simpa [Outcome.news, eq_comm] using hu, rfl,
        .inr ⟨_, _, _, _, _, rfl, next, opened⟩⟩

section

variable {r : Role} {call : Call} {pid : PathId} {old new : Strand} {used : List Sealing}
  {o : Option Outcome} {x' : Exchange S}

theorem used_set (t : Exchange.Turned (w.engine r) x' pid old new used)
    (ys : List (PathId × Outcome)) (q : Role) :
    (w.engine q).used ⊆ ((w.set r x' ys).engine q).used := by
  by_cases hq : q = r
  · subst hq
    rw [engine_set_self, t.used]
    exact List.subset_append_right _ _
  · rw [engine_set_of_ne w hq]
    exact List.Subset.refl _

theorem Sound.sealed_cases (h : w.Sound ak nominator)
    (deed : Exchange.Deed S (w.engine r).device pid call old new used o)
    (t : Exchange.Turned (w.engine r) x' pid old new used) {ys : List (PathId × Outcome)} {q : Role}
    {p : PathId} {m : Message} (hs : (w.set r x' ys).Sealed q p m) :
    w.Sealed q p m ∨ q = r ∧ p = pid ∧ ∃ u ∈ used, Spent S r pid old.stage o u m := by
  refine ((sealed_set t ys).1 hs).imp_right ?_
  rintro ⟨hq, u, hu, ⟨count, hn⟩, hp⟩
  obtain ⟨m', hm⟩ := (spent_of_deed h deed (h.backed r pid old t.before)).2 u hu
  obtain ⟨count', hn'⟩ := hm.nonce
  obtain ⟨rfl, -⟩ := Nonce.make_inj (hn.symm.trans hn')
  obtain rfl := Message.encode_injective (hp.symm.trans hm.plaintext)
  exact ⟨hq, rfl, u, hu, hm⟩

theorem Sound.nonces_set (h : w.Sound ak nominator)
    (deed : Exchange.Deed S (w.engine r).device pid call old new used o)
    (t : Exchange.Turned (w.engine r) x' pid old new used) (ys : List (PathId × Outcome)) (q : Role)
    (u : Sealing) (hu : u ∈ ((w.set r x' ys).engine q).used) :
    ∃ p count m, u.nonce = Nonce.make p (.outbound q) count ∧ u.plaintext = Message.encode m := by
  by_cases hq : q = r
  · subst hq
    rw [engine_set_self, t.used] at hu
    rcases List.mem_append.1 hu with hu | hu
    · obtain ⟨m, hm⟩ := (spent_of_deed h deed (h.backed q pid old t.before)).2 u hu
      obtain ⟨count, hn⟩ := hm.nonce
      exact ⟨pid, count, m, hn, hm.plaintext⟩
    · exact h.nonces q u hu
  · rw [engine_set_of_ne w hq] at hu
    exact h.nonces q u hu

theorem Sound.unique_set (h : w.Sound ak nominator)
    (deed : Exchange.Deed S (w.engine r).device pid call old new used o)
    (t : Exchange.Turned (w.engine r) x' pid old new used) (ys : List (PathId × Outcome)) (q : Role)
    (p : PathId) (m m' : Message) (hm : (w.set r x' ys).Sealed q p m)
    (hm' : (w.set r x' ys).Sealed q p m') (hk : m.key?.isSome = true) (hk' : m'.key?.isSome = true) :
    m = m' := by
  have backs := h.backed r pid old t.before
  -- a key that is sealed now is the first one of its path
  have first {m m' : Message} {u : Sealing} (hu : Spent S r pid old.stage o u m)
      (hk : m.key?.isSome = true) (hs : w.Sealed r pid m') (hk' : m'.key?.isSome = true) : False := by
    obtain ⟨key, hkey⟩ := Option.isSome_iff_exists.1 hk
    rw [(hu.key key hkey).1] at backs
    rw [backs m' hs] at hk'
    cases hk'
  rcases h.sealed_cases deed t hm with hs | ⟨rfl, rfl, u, hu, su⟩ <;>
    rcases h.sealed_cases deed t hm' with hs' | ⟨hq, hp, v, hv, sv⟩
  · exact h.unique q p m m' hs hs' hk hk'
  · subst hq hp
    exact (first sv hk' hs hk).elim
  · exact (first su hk hs' hk').elim
  · have huv : u = v := by
      have hl := (spent_of_deed h deed backs).1
      match used, hl, hu, hv with
      | [a], _, hu, hv => rw [List.mem_singleton.1 hu, List.mem_singleton.1 hv]
    subst huv
    exact Message.encode_injective (su.plaintext.symm.trans sv.plaintext)

theorem opening_of_next {x : Exchange S} {inbox inbox' : Reassembly} {stage : Stage} {c : Bytes}
    (hs : x.strand? pid = some ⟨inbox, stage⟩) (hn : inbox.next = (.ok (some c), inbox'))
    (now : Nat) (s : Entropy) :
    x.opening? (.processFrame pid now s) = (Exchange.inbound S x.device pid stage).map (·, c) := by
  simp only [Exchange.opening?, hs, hn]
  cases Exchange.inbound S x.device pid stage <;> rfl

theorem Sound.backs_new (h : w.Sound ak nominator) (auth : w.Authentic (r, call))
    (deed : Exchange.Deed S (w.engine r).device pid call old new used o)
    (t : Exchange.Turned (w.engine r) x' pid old new used) (ys : List (PathId × Outcome)) :
    (w.set r x' ys).Backs ak r pid new.stage := by
  have hr : (w.engine r).device.role = r := by rw [h.device r]
  have hak : (w.engine r).device.ak = ak := by rw [h.device r]
  have backs := h.backed r pid old t.before
  have grown := used_set t ys
  cases deed with
  | fed =>
    refine backs.mono grown fun hq m hm => ?_
    rcases h.sealed_cases .fed t hm with hm | ⟨-, -, u, hu, -⟩
    · exact (hq ▸ backs) m hm
    · simp at hu
  | refused | exhausted => trivial
  | nominated | sent =>
    obtain ⟨keys, ha, ht⟩ := backs
    first
      | exact ⟨keys, ha.mono grown, ht.advance_tx⟩
      | exact ⟨keys, ha.mono grown, ht.send _⟩
  | @took inbox inbox' stage stage' c now s o used next advance =>
    have opening := opening_of_next t.before next now s
    cases advance with
    | @answered secret own challenge key shared lane opened agreed =>
      have hm := (h.sealed_of_receive auth opening opened (by rw [hr]; rfl)).mono grown
      have mine : (w.set r x' ys).Sealed r pid (.authHello challenge own (S.publicKey secret)) := by
        refine (sealed_set t ys).2 (.inr ⟨rfl, _, List.mem_singleton_self _, ⟨0, ?_⟩, rfl⟩)
        simp [Lane.sealing, Lane.nonce, Device.authLane, Lane.start, hr]
      rw [hr, hak]
      exact ⟨_, ⟨secret, _, key, shared, ⟨_, mine, rfl⟩, hm, rfl, agreed, rfl⟩,
        Transport.of_start ..⟩
    | @proven secret own challenge sentAt key shared lane transport opened agreed start =>
      have hm := (h.sealed_of_receive auth opening opened (by rw [hr]; rfl)).mono grown
      rw [hr, hak] at start
      subst start
      exact ⟨_, ⟨secret, _, key, shared, Offered.mono grown backs, hm, rfl, agreed, rfl⟩,
        (Transport.of_start ..).advance_tx⟩
    | confirmed opened =>
      obtain ⟨keys, ha, ht⟩ := backs
      exact ⟨keys, ha.mono grown, ht.receive opened⟩
    | nominated opened =>
      obtain ⟨keys, ha, ht⟩ := backs
      exact ⟨keys, ha.mono grown, ht.receive opened⟩
    | carried opened =>
      obtain ⟨keys, ha, ht⟩ := backs
      exact ⟨keys, ha.mono grown, ht.receive opened⟩

theorem Sound.backed_set (h : w.Sound ak nominator) (auth : w.Authentic (r, call))
    (deed : Exchange.Deed S (w.engine r).device pid call old new used o)
    (t : Exchange.Turned (w.engine r) x' pid old new used) (ys : List (PathId × Outcome)) (q : Role)
    (p : PathId) (strand : Strand) (hs : ((w.set r x' ys).engine q).strand? p = some strand) :
    (w.set r x' ys).Backs ak q p strand.stage := by
  have grown := used_set t ys
  -- a path whose turn it was not has sealed nothing
  have other (hb : w.Backs ak q p strand.stage) (hq : q = r → p ≠ pid) :
      (w.set r x' ys).Backs ak q p strand.stage := by
    refine hb.mono grown fun first m hm => ?_
    rcases h.sealed_cases deed t hm with hm | ⟨hr, hp, -⟩
    · exact (first ▸ hb) m hm
    · exact (hq hr hp).elim
  by_cases hq : q = r
  · subst hq
    rw [engine_set_self] at hs
    by_cases hp : p = pid
    · subst hp
      obtain rfl : new = strand := Option.some.inj (t.after.symm.trans hs)
      exact h.backs_new auth deed t ys
    · rw [t.others p hp] at hs
      split_ifs at hs
      exact other (h.backed q p strand hs) fun _ => hp
  · rw [engine_set_of_ne w hq] at hs
    exact other (h.backed q p strand hs) fun hr => (hq hr).elim

theorem reported_set {q : Role} {p : PathId} {hash : PathHash}
    (hr : (w.set r x' (o.toList.map (pid, ·))).Reported q p hash) :
    w.Reported q p hash ∨ q = r ∧ p = pid ∧ ∃ o', o = some o' ∧
      o'.update = some (.nominated hash) := by
  obtain ⟨o', hm, hu⟩ := hr
  rcases mem_log_set.1 hm with ⟨hq, hp, ho⟩ | hm
  · exact .inr ⟨hq, hp, o', ho, hu⟩
  · exact .inl ⟨o', hm, hu⟩

theorem Sound.chosen_set (h : w.Sound ak nominator)
    (deed : Exchange.Deed S (w.engine r).device pid call old new used o)
    (t : Exchange.Turned (w.engine r) x' pid old new used) (q : Role) (p : PathId)
    (hs : (w.set r x' (o.toList.map (pid, ·))).Sealed q p .nominate) :
    ∃ hash, (w.set r x' (o.toList.map (pid, ·))).Reported q p hash := by
  rcases h.sealed_cases deed t hs with hs | ⟨rfl, rfl, u, -, hu⟩
  · obtain ⟨hash, hr⟩ := h.chosen q p hs
    exact ⟨hash, hr.mono ..⟩
  · obtain ⟨o', hash, rfl, ho⟩ := hu.nominate rfl
    exact ⟨hash, o', List.mem_append_left _ (by simp), ho⟩

theorem Sound.reported_set (h : w.Sound ak nominator)
    (deed : Exchange.Deed S (w.engine r).device pid call old new used o)
    (t : Exchange.Turned (w.engine r) x' pid old new used) (q : Role) (p : PathId) (hash : PathHash)
    (hr : (w.set r x' (o.toList.map (pid, ·))).Reported q p hash) :
    ((w.set r x' (o.toList.map (pid, ·))).engine q).nominated = some p ∧
      ∃ keys, (w.set r x' (o.toList.map (pid, ·))).Agreed ak q p keys ∧ hash = keys.hash := by
  rcases Pair.reported_set hr with hr | ⟨rfl, rfl, o', ho, hu⟩
  · obtain ⟨hn, keys, ha, hh⟩ := h.reported q p hash hr
    refine ⟨?_, keys, ha.mono (used_set t _), hh⟩
    by_cases hq : q = r
    · subst hq
      rw [engine_set_self, t.nominated, hn]
      split_ifs
      · rcases Exchange.nominated_of_strand? t.before with hx | hx
        · simp [hn] at hx
        · exact hx.symm.trans hn
      · rfl
    · rw [engine_set_of_ne w hq, hn]
  · obtain ⟨transport, hstage, hhash, hnew, -⟩ := report_of_deed deed ho hu
    have backs := h.backed q p old t.before
    rw [hstage] at backs
    obtain ⟨keys, ha, ht⟩ := backs
    refine ⟨?_, keys, ha.mono (used_set t _), hhash.trans ht.hash⟩
    rw [engine_set_self, t.nominated, if_pos hnew]

/-- When a device receives a nomination, the nominator has reported it with the same hash. -/
theorem Sound.reported_of_taken (symm : ∀ a b, S.agree a (S.publicKey b) = S.agree b (S.publicKey a))
    (h : w.Sound ak nominator) (auth : w.Authentic (nominator.peer, call))
    (deed : Exchange.Deed S (w.engine nominator.peer).device pid call old new used o)
    (t : Exchange.Turned (w.engine nominator.peer) x' pid old new used) {o' : Outcome}
    {hash : PathHash} (ho : o = some o') (hu : o'.update = some (.nominated hash)) :
    w.Reported nominator pid hash := by
  obtain ⟨transport, hstage, rfl, -, made | ⟨c, inbox', now, s, rx, rfl, next, opened⟩⟩ :=
    report_of_deed deed ho hu
  · rw [h.device nominator.peer] at made
    simp [(Role.ne_peer nominator).symm] at made
  · have backs := h.backed nominator.peer pid old t.before
    obtain ⟨inbox, stage⟩ := old
    obtain rfl : stage = .ready transport := hstage
    obtain ⟨keys, ha, ht⟩ := backs
    have hs := h.sealed_of_receive auth (opening_of_next t.before next now s) opened ht.rxDirection
    rw [ht.rxPid, Role.peer_peer] at hs
    obtain ⟨hash, hr⟩ := h.chosen nominator pid hs
    obtain ⟨-, keys', ha', rfl⟩ := h.reported nominator pid hash hr
    rw [ht.hash, ← h.agreed_eq symm ha' ha]
    exact hr

theorem named_set (settled : ∀ q, (w.engine q).Settled)
    (named : ∀ q p, (w.engine q).nominated = some p → ∃ hash, w.Reported q p hash)
    (deed : Exchange.Deed S (w.engine r).device pid call old new used o)
    (t : Exchange.Turned (w.engine r) x' pid old new used) (q : Role) (p : PathId)
    (hn : ((w.set r x' (o.toList.map (pid, ·))).engine q).nominated = some p) :
    ∃ hash, (w.set r x' (o.toList.map (pid, ·))).Reported q p hash := by
  have before (hn : (w.engine q).nominated = some p) :
      ∃ hash, (w.set r x' (o.toList.map (pid, ·))).Reported q p hash := by
    obtain ⟨hash, hr⟩ := named q p hn
    exact ⟨hash, hr.mono ..⟩
  by_cases hq : q = r
  · subst hq
    rw [engine_set_self, t.nominated] at hn
    split_ifs at hn with hi
    · obtain rfl := Option.some.inj hn
      obtain ⟨transport, hnew⟩ := Stage.isNominated_iff.1 hi
      rcases deed.reports hnew with ⟨transport', hold, -⟩ | ⟨o', rfl, hu⟩
      · exact before ((settled q).named pid old t.before (by rw [hold]; rfl))
      · exact ⟨transport.hash, o', List.mem_append_left _ (by simp), hu⟩
    · exact before hn
  · rw [engine_set_of_ne w hq] at hn
    exact before hn

theorem preceded_append {new log : List (Role × PathId × Outcome)} (h : Preceded nominator log)
    (hn : ∀ pid o hash, (nominator.peer, pid, o) ∈ new → o.update = some (.nominated hash) →
      ∃ o', (nominator, pid, o') ∈ log ∧ o'.update = some (.nominated hash)) :
    Preceded nominator (new ++ log) := by
  induction new with
  | nil => exact h
  | cons e new ih =>
    intro later earlier p o hash he hu
    cases later with
    | nil =>
      obtain ⟨rfl, rfl⟩ := List.cons.inj he
      obtain ⟨o', hm, hu'⟩ := hn p o hash (by simp) hu
      exact ⟨o', List.mem_append_right _ hm, hu'⟩
    | cons _ later =>
      refine ih (fun p o hash hm => hn p o hash (List.mem_cons_of_mem _ hm)) later earlier p o hash
        (List.cons.inj he).2 hu

theorem sound_turned (symm : ∀ a b, S.agree a (S.publicKey b) = S.agree b (S.publicKey a))
    (h : w.Sound ak nominator) (auth : w.Authentic (r, call))
    (started : (w.engine r).started = true)
    (deed : Exchange.Deed S (w.engine r).device pid call old new used o)
    (t : Exchange.Turned (w.engine r) x' pid old new used) :
    (w.set r x' (o.toList.map (pid, ·))).Sound ak nominator where
  device q := (device_set t _ q).trans (h.device q)
  settled := settled_set h.settled deed t _
  unstarted q hs := by
    rw [started_set t] at hs
    have hq : q ≠ r := fun hq => by rw [hq, started] at hs; cases hs
    rw [engine_set_of_ne w hq]
    exact h.unstarted q hs
  nonces := h.nonces_set deed t _
  offers q p m key hs hk := by
    rcases h.sealed_cases deed t hs with hs | ⟨-, -, u, -, hu⟩
    · exact h.offers q p m key hs hk
    · exact (hu.key key hk).2
  unique := h.unique_set deed t _
  backed := h.backed_set auth deed t _
  chosen := h.chosen_set deed t
  reported := h.reported_set deed t
  named := named_set h.settled h.named deed t
  preceded := by
    refine preceded_append h.preceded fun p o' hash hm hu => ?_
    obtain ⟨rfl, rfl, ho⟩ : nominator.peer = r ∧ p = pid ∧ o = some o' := by
      cases o with
      | none => simp at hm
      | some o => simpa [eq_comm] using hm
    exact h.reported_of_taken symm auth deed t ho hu

end

/-! ### The start -/

/-- The change made by a start, which seals at most one hello for each path. -/
structure Begun (S : Suite) (r : Role) (x x' : Exchange S) (used : List Sealing) : Prop where
  device : x'.device = x.device
  started : x'.started = true
  nominated : x'.nominated = x.nominated
  grew : x'.used = used ++ x.used
  hello : ∀ u ∈ used, ∃ pid challenge secret, u.nonce = Nonce.make pid (.outbound r) 0 ∧
    u.plaintext = (Message.hello challenge (S.publicKey secret)).encode
  unique : ∀ u ∈ used, ∀ v ∈ used, ∀ pid i j, u.nonce = Nonce.make pid (.outbound r) i →
    v.nonce = Nonce.make pid (.outbound r) j → u = v
  strands : ∀ pid strand, x'.strand? pid = some strand →
    (used = [] ∧ x.strand? pid = some strand) ∨
    ∃ secret challenge sentAt, strand.stage = .awaitingAuthHello secret challenge sentAt ∧
      ∃ u ∈ used, u.nonce = Nonce.make pid (.outbound r) 0 ∧
        u.plaintext = (Message.hello challenge (S.publicKey secret)).encode

section

variable {r : Role} {used : List Sealing} {x' : Exchange S}

theorem Begun.sealed_iff (b : Begun S r (w.engine r) x' used) (hx : (w.engine r).used = [])
    {ys : List (PathId × Outcome)} {q : Role} {p : PathId} {m : Message} :
    (w.set r x' ys).Sealed q p m ↔ q ≠ r ∧ w.Sealed q p m ∨ q = r ∧ ∃ u ∈ used,
      (∃ count, u.nonce = Nonce.make p (.outbound r) count) ∧ u.plaintext = m.encode := by
  by_cases hq : q = r
  · subst hq; simp [Sealed, b.grew, hx]
  · simp [Sealed, engine_set_of_ne w hq, hq]

theorem Begun.hello_of_mem (b : Begun S r (w.engine r) x' used) {u : Sealing} (hu : u ∈ used)
    {m : Message} (hm : u.plaintext = m.encode) :
    ∃ challenge secret, m = .hello challenge (S.publicKey secret) := by
  obtain ⟨-, challenge, secret, -, hp⟩ := b.hello u hu
  exact ⟨challenge, secret, Message.encode_injective (hm.symm.trans hp)⟩

theorem Begun.backs (b : Begun S r (w.engine r) x' used) (h : w.Sound ak nominator)
    (hx : (w.engine r).used = []) (ys : List (PathId × Outcome)) (q : Role) (p : PathId)
    (strand : Strand) (hs : ((w.set r x' ys).engine q).strand? p = some strand) :
    (w.set r x' ys).Backs ak q p strand.stage := by
  have grown (q : Role) : (w.engine q).used ⊆ ((w.set r x' ys).engine q).used := by
    by_cases hq : q = r
    · subst hq; simp [hx]
    · rw [engine_set_of_ne w hq]; exact List.Subset.refl _
  by_cases hq : q = r
  · subst hq
    rw [engine_set_self] at hs
    rcases b.strands p strand hs with ⟨rfl, hs⟩ | ⟨secret, challenge, sentAt, hstage, u, hu, hn, hp⟩
    · refine (h.backed q p strand hs).mono grown fun _ m hm => ?_
      rcases (b.sealed_iff hx).1 hm with ⟨hne, -⟩ | ⟨-, u, hu, -⟩
      · exact (hne rfl).elim
      · simp at hu
    · rw [hstage]
      exact ⟨_, (b.sealed_iff hx).2 (.inr ⟨rfl, u, hu, ⟨0, hn⟩, hp⟩), rfl⟩
  · rw [engine_set_of_ne w hq] at hs
    have hb := h.backed q p strand hs
    refine hb.mono grown fun first m hm => ?_
    rcases (b.sealed_iff hx).1 hm with ⟨-, hm⟩ | ⟨hr, -⟩
    · exact (first ▸ hb) m hm
    · exact (hq hr).elim

theorem sound_begun (h : w.Sound ak nominator) (hs : (w.engine r).started = false)
    (b : Begun S r (w.engine r) x' used) {ys : List (PathId × Outcome)}
    (hy : ∀ pid o, (pid, o) ∈ ys → o.update = none) : (w.set r x' ys).Sound ak nominator := by
  obtain ⟨hx, -, hnone⟩ := h.unstarted r hs
  have old {q : Role} {p : PathId} {hash : PathHash} (hr : (w.set r x' ys).Reported q p hash) :
      w.Reported q p hash := by
    obtain ⟨o, hm, hu⟩ := hr
    rcases List.mem_append.1 hm with hm | hm
    · obtain ⟨⟨p', o'⟩, yielded, he⟩ := List.mem_map.1 hm
      obtain ⟨-, rfl, rfl⟩ : r = q ∧ p' = p ∧ o' = o := by simpa using he
      simp [hy _ _ yielded] at hu
    · exact ⟨o, hm, hu⟩
  have grown (q : Role) : (w.engine q).used ⊆ ((w.set r x' ys).engine q).used := by
    by_cases hq : q = r
    · subst hq; simp [hx]
    · rw [engine_set_of_ne w hq]; exact List.Subset.refl _
  constructor
  case device =>
    intro q
    by_cases hq : q = r
    · subst hq; rw [engine_set_self, b.device, h.device]
    · rw [engine_set_of_ne w hq, h.device]
  case settled =>
    intro q
    by_cases hq : q = r
    · subst hq
      rw [engine_set_self]
      refine ⟨fun p strand hp hi => ?_, fun p strand hp => by simp [b.nominated, hnone] at hp⟩
      rcases b.strands p strand hp with ⟨-, hp⟩ | ⟨_, _, _, hstage, -⟩
      · rw [b.nominated]; exact (h.settled q).named p strand hp hi
      · simp [hstage, Stage.isNominated] at hi
    · rw [engine_set_of_ne w hq]; exact h.settled q
  case unstarted =>
    intro q hq'
    by_cases hq : q = r
    · subst hq; simp [b.started] at hq'
    · rw [engine_set_of_ne w hq] at hq' ⊢; exact h.unstarted q hq'
  case nonces =>
    intro q u hu
    by_cases hq : q = r
    · subst hq
      rw [engine_set_self, b.grew, hx, List.append_nil] at hu
      obtain ⟨p, challenge, secret, hn, hp⟩ := b.hello u hu
      exact ⟨p, 0, _, hn, hp⟩
    · rw [engine_set_of_ne w hq] at hu; exact h.nonces q u hu
  case offers =>
    intro q p m key hm hk
    rcases (b.sealed_iff hx).1 hm with ⟨-, hm⟩ | ⟨-, u, hu, -, hp⟩
    · exact h.offers q p m key hm hk
    · obtain ⟨challenge, secret, rfl⟩ := b.hello_of_mem hu hp
      exact ⟨secret, (Option.some.inj hk).symm⟩
  case unique =>
    -- a start seals one hello for a path that has sealed nothing, so both are old or both are that one
    intro q p m m' hm hm' hk hk'
    rcases (b.sealed_iff hx).1 hm with ⟨hne, hs⟩ | ⟨rfl, u, hu, ⟨i, hi⟩, hp⟩ <;>
      rcases (b.sealed_iff hx).1 hm' with ⟨hne', hs'⟩ | ⟨hq, v, hv, ⟨j, hj⟩, hp'⟩
    · exact h.unique q p m m' hs hs' hk hk'
    · exact (hne hq).elim
    · exact (hne' rfl).elim
    · obtain rfl := b.unique u hu v hv p i j hi hj
      exact Message.encode_injective (hp.symm.trans hp')
  case backed => exact b.backs h hx ys
  case chosen =>
    intro q p hm
    rcases (b.sealed_iff hx).1 hm with ⟨-, hm⟩ | ⟨-, u, hu, -, hp⟩
    · obtain ⟨hash, hr⟩ := h.chosen q p hm
      exact ⟨hash, hr.mono ..⟩
    · obtain ⟨challenge, secret, hh⟩ := b.hello_of_mem hu hp
      cases hh
  case reported =>
    intro q p hash hr
    obtain ⟨hn, keys, ha, hh⟩ := h.reported q p hash (old hr)
    refine ⟨?_, keys, ha.mono grown, hh⟩
    by_cases hq : q = r
    · subst hq; rw [engine_set_self, b.nominated, hn]
    · rw [engine_set_of_ne w hq, hn]
  case named =>
    intro q p hn
    by_cases hq : q = r
    · subst hq; rw [engine_set_self, b.nominated, hnone] at hn; cases hn
    · rw [engine_set_of_ne w hq] at hn
      obtain ⟨hash, hr⟩ := h.named q p hn
      exact ⟨hash, hr.mono ..⟩
  case preceded =>
    refine preceded_append h.preceded fun p o hash hm hu => ?_
    obtain ⟨⟨p', o'⟩, yielded, he⟩ := List.mem_map.1 hm
    obtain ⟨-, rfl, rfl⟩ : r = nominator.peer ∧ p' = p ∧ o' = o := by simpa using he
    simp [hy _ _ yielded] at hu

theorem begun_initiator {x : Exchange S} : Begun S r x { x with started := true } [] :=
  ⟨rfl, rfl, rfl, rfl, by simp, by simp, fun _ _ hs => .inl ⟨rfl, hs⟩⟩

theorem begun_responder {x : Exchange S} (hd : x.device.role = r) (hx : x.nominated = none)
    (hn : (x.strands.map Prod.fst).Nodup) {now : Nat} {frames : List (PathId × Bytes)}
    {strands : List (PathId × Strand)}
    (g : Exchange.Greets S x.device now x.strands frames strands used) :
    Begun S r x { x with started := true, strands, used := used ++ x.used } used where
  device := rfl
  started := rfl
  nominated := rfl
  grew := rfl
  hello u hu := by
    obtain ⟨pid, -, challenge, secret, rfl⟩ := g.mem_used hu
    refine ⟨pid, challenge, secret, ?_, rfl⟩
    simp [Lane.sealing, Lane.nonce, Device.authLane, Lane.start, hd]
  unique u hu v hv pid i j hi hj := g.unique hn hu hv hi hj
  strands pid strand hs := by
    have hl : strands.lookup pid = some strand := by simpa [Exchange.strand?, hx] using hs
    rcases g.greeted pid with ⟨-, hl', -⟩ | ⟨old, secret, challenge, -, hl', -, hu⟩
    · simp [hl'] at hl
    · obtain rfl := Option.some.inj (hl.symm.trans hl')
      refine .inr ⟨secret, challenge, now, rfl, _, hu, ?_, rfl⟩
      simp [Lane.sealing, Lane.nonce, Device.authLane, Lane.start, hd]

end

/-! ### Runs -/

theorem sound_start (h : w.Sound ak nominator) (r : Role) (now : Nat) (s : Entropy) :
    (w.after (r, .start now s)).Sound ak nominator := by
  have hd : (w.engine r).device.role = r := by rw [h.device r]
  simp only [after, Exchange.admits, if_true]
  rcases Exchange.start_cases (w.engine r) now s with
    ⟨-, fault, hc⟩ | ⟨hs, -, hc⟩ | ⟨hs, -, frames, strands, used, greets, hc⟩
  · rw [Exchange.yields, hc, set_engine]; exact h
  · rw [Exchange.yields, hc]
    exact sound_begun h hs begun_initiator (by simp)
  · rw [Exchange.yields, hc]
    obtain ⟨-, hn, hnone⟩ := h.unstarted r hs
    refine sound_begun h hs (begun_responder hd hnone hn greets) fun pid o ho => ?_
    obtain ⟨e, -, he⟩ := List.mem_map.1 ho
    obtain ⟨-, rfl⟩ := Prod.mk.inj he
    rfl

theorem sound_after (symm : ∀ a b, S.agree a (S.publicKey b) = S.agree b (S.publicKey a))
    (h : w.Sound ak nominator) (m : Role × Call) (auth : w.Authentic m) :
    (w.after m).Sound ak nominator := by
  obtain ⟨r, call⟩ := m
  have turn (started : (w.engine r).started = true)
      (t : (w.engine r).Turn call ((w.engine r).yields call) ((w.engine r).call call).2) :
      (w.set r ((w.engine r).call call).2 ((w.engine r).yields call)).Sound ak nominator := by
    generalize (w.engine r).yields call = ys at t ⊢
    generalize ((w.engine r).call call).2 = x' at t ⊢
    cases t with
    | still => rw [set_engine]; exact h
    | turned deed t => exact sound_turned symm h auth started deed t
  cases call with
  | start now s => exact sound_start h r now s
  | addChunk pid chunk =>
    simp only [after]
    split_ifs with hs
    · exact turn hs ((h.settled r).turn_addChunk pid chunk)
    · exact h
  | processFrame pid now s =>
    simp only [after]
    split_ifs with hs
    · exact turn hs (Exchange.turn_processFrame _ pid now s)
    · exact h
  | nominate pid =>
    simp only [after]
    split_ifs with hs
    · exact turn hs (Exchange.turn_nominate _ pid)
    · exact h
  | createFrame data =>
    simp only [after]
    split_ifs with hs
    · exact turn hs (Exchange.turn_createFrame _ data)
    · exact h

theorem sound_met {pids : Role → List PathId} (h : w.Met ak nominator pids) :
    w.Sound ak nominator := by
  obtain ⟨hnew, hlog⟩ := h
  have new (r : Role) := Exchange.new_ok (hnew r)
  have used (r : Role) : (w.engine r).used = [] := by rw [(new r).2]
  have nominated (r : Role) : (w.engine r).nominated = none := by rw [(new r).2]
  have unsealed {r : Role} {pid : PathId} {m : Message} : ¬ w.Sealed r pid m := by
    rintro ⟨u, hu, -⟩
    simp [used r] at hu
  have unreported {r : Role} {pid : PathId} {hash : PathHash} : ¬ w.Reported r pid hash := by
    rintro ⟨o, ho, -⟩
    simp [hlog] at ho
  have fresh (r : Role) (pid : PathId) (strand : Strand)
      (hs : (w.engine r).strand? pid = some strand) : strand = Strand.fresh := by
    have hl : (w.engine r).strands.lookup pid = some strand := by
      simpa [Exchange.strand?, nominated r] using hs
    rw [(new r).2, Exchange.lookup_fresh] at hl
    split_ifs at hl
    exact (Option.some.inj hl).symm
  have distinct (r : Role) : ((w.engine r).strands.map Prod.fst).Nodup := by
    rw [(new r).2, List.map_map]
    exact ((List.mergeSort_perm _ _).map _).nodup_iff.2
      (by simpa [Function.comp_def] using (new r).1)
  constructor
  case device => exact fun r => by rw [(new r).2]
  case settled =>
    refine fun r => ⟨fun pid strand hs hi => ?_, fun pid strand hn => ?_⟩
    · rw [fresh r pid strand hs] at hi; cases hi
    · simp [nominated r] at hn
  case unstarted => exact fun r _ => ⟨used r, distinct r, nominated r⟩
  case nonces => exact fun r u hu => by simp [used r] at hu
  case offers => exact fun r pid m key hs => (unsealed hs).elim
  case unique => exact fun r pid m m' hs => (unsealed hs).elim
  case backed =>
    intro r pid strand hs
    rw [fresh r pid strand hs]
    exact fun m hm => (unsealed hm).elim
  case chosen => exact fun r pid hs => (unsealed hs).elim
  case reported => exact fun r pid hash hr => (unreported hr).elim
  case named => exact fun r pid hn => by simp [nominated r] at hn
  case preceded =>
    intro later earlier pid o hash he
    simp [hlog] at he

end Pair

end PathRace
