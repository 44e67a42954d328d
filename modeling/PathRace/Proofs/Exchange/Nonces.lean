import PathRace.Proofs.Exchange.Turn
import PathRace.Proofs.Wire.Plain

/-! No key is used twice under one nonce. Every lane under the authentication key starts at zero, so the
argument covers the whole life of a path: it seals at most one message under that key before it has a
lane of its own (`Unspent`), and the numbers of that lane only grow (`Ahead`). Nonces of different paths
differ, also where two paths derive the same key. -/

namespace PathRace

/-- Key and nonce of a use. They must not repeat. -/
def Sealing.place (u : Sealing) : Key × Nonce := (u.key, u.nonce)

def Stage.tx? : Stage → Option Lane
  | awaitingAuth transport .. | ready transport | nominated transport => some transport.tx
  | awaitingHello | awaitingAuthHello .. | failed => none

namespace Device

variable {S : Suite} {d : Device} {pid : PathId} {used : List Sealing} {l : Lane}

/-- The next counter value of the lane is above every one that the path has used under the lane's key. -/
structure Ahead (S : Suite) (d : Device) (pid : PathId) (used : List Sealing) (l : Lane) : Prop where
  path : l.pid = pid
  direction : l.direction = .outbound d.role
  above : ∀ u ∈ used, ∀ count, u.nonce = Nonce.make pid (.outbound d.role) count →
    u.key = S.authKey d.ak d.role ∨ count.toNat < l.counter.toNat

theorem Ahead.nonce (h : Ahead S d pid used l) :
    l.nonce = Nonce.make pid (.outbound d.role) l.counter := by
  rw [Lane.nonce, h.path, h.direction]

theorem Ahead.place_not_mem (h : Ahead S d pid used l) (apart : l.key ≠ S.authKey d.ak d.role)
    (p : Bytes) : (l.sealing p).place ∉ used.map Sealing.place := by
  intro hm
  obtain ⟨u, hu, same⟩ := List.mem_map.1 hm
  obtain ⟨key, nonce⟩ : u.key = l.key ∧ u.nonce = l.nonce := by
    simpa [Sealing.place, Lane.sealing] using same
  rcases h.above u hu l.counter (nonce.trans h.nonce) with auth | below
  · exact apart (key.symm.trans auth)
  · exact lt_irrefl _ below

theorem Ahead.advance (h : Ahead S d pid used l) (fresh : l.isExhausted = false) (p : Bytes) :
    Ahead S d pid (l.sealing p :: used) l.advance where
  path := h.path
  direction := h.direction
  above u hu count hn := by
    rw [Lane.counter_advance fresh]
    rcases List.mem_cons.1 hu with rfl | hu
    · obtain ⟨-, -, rfl⟩ := Nonce.make_inj (h.nonce.symm.trans hn)
      exact .inr (Nat.lt_succ_self _)
    · exact (h.above u hu count hn).imp_right fun below => Nat.lt_succ_of_lt below

/-- What a device may have sealed for a path, by the stage of the path. -/
def Unspent (S : Suite) (d : Device) (pid : PathId) (used : List Sealing) : Stage → Prop
  | .awaitingHello => ∀ u ∈ used, ∀ count, u.nonce ≠ Nonce.make pid (.outbound d.role) count
  | .awaitingAuthHello .. => ∀ u ∈ used, ∀ count,
      u.nonce = Nonce.make pid (.outbound d.role) count → u.key = S.authKey d.ak d.role
  | .awaitingAuth transport .. | .ready transport | .nominated transport =>
    Ahead S d pid used transport.tx
  | .failed => True

theorem Unspent.append {added : List Sealing} {q : PathId} (hq : q ≠ pid)
    (other : ∀ u ∈ added, ∃ count, u.nonce = Nonce.make pid (.outbound d.role) count)
    {stage : Stage} (h : Unspent S d q used stage) : Unspent S d q (added ++ used) stage := by
  have apart {u : Sealing} (hu : u ∈ added) {count : UInt64} :
      u.nonce ≠ Nonce.make q (.outbound d.role) count := by
    intro hn
    obtain ⟨count', hn'⟩ := other u hu
    exact hq (Nonce.make_inj (hn.symm.trans hn')).1
  have ahead {l : Lane} (h : Ahead S d q used l) : Ahead S d q (added ++ used) l := by
    refine ⟨h.path, h.direction, fun u hu count hn => ?_⟩
    rcases List.mem_append.1 hu with hu | hu
    · exact absurd hn (apart hu)
    · exact h.above u hu count hn
  cases stage with
  | awaitingHello =>
    intro u hu count
    rcases List.mem_append.1 hu with hu | hu
    · exact apart hu
    · exact h u hu count
  | awaitingAuthHello =>
    intro u hu count hn
    rcases List.mem_append.1 hu with hu | hu
    · exact absurd hn (apart hu)
    · exact h u hu count hn
  | awaitingAuth | ready | nominated => exact ahead h
  | failed => trivial

theorem ahead_start {keys : PathKeys} (h : ∀ u ∈ used, ∀ count,
    u.nonce = Nonce.make pid (.outbound d.role) count → u.key = S.authKey d.ak d.role) :
    Ahead S d pid used (Transport.start d.role pid keys).tx :=
  ⟨rfl, rfl, fun u hu count hn => .inl (h u hu count hn)⟩

end Device

namespace Exchange

variable {S : Suite} {d : Device} {pid : PathId} {used added : List Sealing} {x x' : Exchange S}

/-- A turn adds no use of a key, or one in a new place. -/
inductive Adds (d : Device) (pid : PathId) (used : List Sealing) : List Sealing → Prop
  | nothing : Adds d pid used []
  | one {u : Sealing} {count : UInt64} (nonce : u.nonce = Nonce.make pid (.outbound d.role) count)
      (fresh : u.place ∉ used.map Sealing.place) : Adds d pid used [u]

theorem Adds.distinct (h : Adds d pid used added) (distinct : (used.map Sealing.place).Nodup) :
    ((added ++ used).map Sealing.place).Nodup := by
  cases h with
  | nothing => exact distinct
  | one nonce fresh => exact List.nodup_cons.2 ⟨fresh, distinct⟩

theorem Adds.nonce (h : Adds d pid used added) (u : Sealing) (hu : u ∈ added) :
    ∃ count, u.nonce = Nonce.make pid (.outbound d.role) count := by
  cases h with
  | nothing => cases hu
  | one nonce => obtain rfl := List.mem_singleton.1 hu; exact ⟨_, nonce⟩

theorem Adds.sealing {l : Lane} (h : d.Ahead S pid used l) (apart : l.key ≠ S.authKey d.ak d.role)
    (p : Bytes) : Adds d pid used [l.sealing p] := .one h.nonce (h.place_not_mem apart p)

theorem adds_of_deed {c : Call} {old new : Strand} {o : Option Outcome}
    (deed : Deed S d pid c old new added o) (h : d.Unspent S pid used old.stage)
    (apart : ∀ l, old.stage.tx? = some l → l.key ≠ S.authKey d.ak d.role)
    (apart' : ∀ l, new.stage.tx? = some l → l.key ≠ S.authKey d.ak d.role) :
    Adds d pid used added ∧ d.Unspent S pid (added ++ used) new.stage := by
  cases deed with
  | fed => exact ⟨.nothing, h⟩
  | refused | exhausted => exact ⟨.nothing, trivial⟩
  | @nominated inbox transport nominator fresh =>
    exact ⟨.sealing h (apart _ rfl) _, Device.Ahead.advance h fresh _⟩
  | @sent inbox transport data o frame =>
    cases hl : transport.tx.isExhausted with
    | true => rw [Lane.send_of_exhausted hl]; exact ⟨.nothing, h⟩
    | false =>
      obtain ⟨lane, used⟩ := Lane.used_send (S := S) hl (.ulp data)
      rw [used, lane]
      exact ⟨.sealing h (apart _ rfl) _, Device.Ahead.advance h hl _⟩
  | took next advance =>
    cases advance with
    | confirmed | nominated | carried => exact ⟨.nothing, h⟩
    | @answered secret own challenge key shared lane opened agreed =>
      -- nothing has been sealed for the path, and this is under the auth key
      have nonce : (d.authLane S d.role pid).nonce = Nonce.make pid (.outbound d.role) 0 := rfl
      refine ⟨.one nonce fun hm => ?_, Device.ahead_start fun u hu count hn => ?_⟩
      · obtain ⟨u, hu, same⟩ := List.mem_map.1 hm
        exact h u hu 0 (congrArg Prod.snd same)
      · rcases List.mem_cons.1 hu with rfl | hu
        · rfl
        · exact absurd hn (h u hu count)
    | @proven secret own challenge sentAt key shared lane transport opened agreed start =>
      subst start
      have ahead : d.Ahead S pid used (Transport.start d.role pid (S.pathKeys d.ak shared)).tx :=
        Device.ahead_start h
      have other := apart' (Transport.start d.role pid (S.pathKeys d.ak shared)).tx.advance rfl
      exact ⟨.sealing ahead other _, ahead.advance (Transport.isExhausted_start_tx ..) _⟩

/-! ### Calls -/

/-- No path sends under the key of the device's first messages. -/
def KeysApart (x : Exchange S) : Prop :=
  ∀ pid strand l, x.strand? pid = some strand → strand.stage.tx? = some l →
    l.key ≠ S.authKey x.device.ak x.device.role

/-- No place has been used twice, and the next use of every lane is in a new place. -/
structure Fresh (x : Exchange S) : Prop where
  distinct : (x.used.map Sealing.place).Nodup
  settled : x.Settled
  unspent : ∀ pid strand, x.strand? pid = some strand →
    x.device.Unspent S pid x.used strand.stage

theorem Fresh.turned (h : x.Fresh) (apart : x.KeysApart) (apart' : x'.KeysApart) {c : Call}
    {old new : Strand} {o : Option Outcome} (deed : Deed S x.device pid c old new added o)
    (t : Turned x x' pid old new added) : x'.Fresh := by
  obtain ⟨adds, spent⟩ := adds_of_deed deed (h.unspent pid old t.before) (fun l => apart pid old l t.before)
    (fun l hl => t.device ▸ apart' pid new l t.after hl)
  refine ⟨?_, h.settled.turned deed t, fun q strand hs => ?_⟩
  · rw [t.used]; exact adds.distinct h.distinct
  · rw [t.device, t.used]
    by_cases hq : q = pid
    · subst hq
      obtain rfl : new = strand := Option.some.inj (t.after.symm.trans hs)
      exact spent
    · rw [t.others q hq] at hs
      split_ifs at hs
      exact (h.unspent q strand hs).append hq adds.nonce

structure Waiting (x : Exchange S) : Prop where
  started : x.started = false
  used : x.used = []
  nominated : x.nominated = none
  paths : (x.strands.map Prod.fst).Nodup
  fresh : ∀ pid strand, x.strand? pid = some strand → strand = Strand.fresh

theorem waiting_new {setup : Setup} (h : Exchange.new S setup = .ok x) : x.Waiting := by
  obtain ⟨nodup, rfl⟩ := new_ok h
  refine ⟨rfl, rfl, rfl, ?_, fun pid strand hs => ?_⟩
  · rw [List.map_map]
    exact ((List.mergeSort_perm _ _).map _).nodup_iff.2 (by simpa [Function.comp_def] using nodup)
  · have hl : ((setup.pids.mergeSort (· ≤ ·)).map (·, Strand.fresh)).lookup pid = some strand := by
      simpa [strand?] using hs
    rw [lookup_fresh] at hl
    split_ifs at hl
    exact (Option.some.inj hl).symm

theorem Waiting.initialFrames (h : x.Waiting) (now : Nat) (s : Entropy) :
    ∃ frames x' s', Engine.initialFrames now x s = (.ok frames, x', s') ∧ x'.device = x.device ∧
      x'.nominated = none ∧ ∀ pid, (x.strand? pid = none ∧ x'.strand? pid = none) ∨
        ∃ stage, x.strand? pid = some Strand.fresh ∧ x'.strand? pid = some ⟨Reassembly.empty, stage⟩ ∧
          (stage = .awaitingHello ∨
            ∃ secret challenge, stage = .awaitingAuthHello secret challenge now) := by
  simp only [Engine.initialFrames, Exchange.initialFrames, h.started, Bool.false_eq_true, if_false]
  cases x.device.role with
  | initiator =>
    refine ⟨[], _, s, rfl, rfl, h.nominated, fun pid => ?_⟩
    cases hs : x.strand? pid with
    | none => exact .inl ⟨rfl, hs⟩
    | some strand =>
      obtain rfl := h.fresh pid strand hs
      exact .inr ⟨_, rfl, hs, .inl rfl⟩
  | responder =>
    obtain ⟨frames, strands, used, s', hg, greets⟩ := greets (S := S) x.device now x.strands s
    rw [hg]
    refine ⟨frames, _, s', rfl, rfl, h.nominated, fun pid => ?_⟩
    have listed : x.strand? pid = x.strands.lookup pid := by simp [strand?, h.nominated]
    have listed' : strand? ({ x with started := true, strands, used := used ++ x.used } : Exchange S)
        pid = strands.lookup pid := by simp [strand?, h.nominated]
    rcases greets.greeted pid with ⟨none, none', -⟩ | ⟨old, secret, challenge, some, some', -⟩
    · exact .inl ⟨listed.trans none, listed'.trans none'⟩
    · obtain rfl := h.fresh pid old (listed.trans some)
      exact .inr ⟨_, listed.trans some, listed'.trans some', .inr ⟨secret, challenge, rfl⟩⟩

theorem Waiting.isFresh (h : x.Waiting) : x.Fresh where
  distinct := by simp [h.used]
  settled :=
    { named := fun pid strand hs hn => by rw [h.fresh pid strand hs] at hn; cases hn
      stays := fun pid strand hn => by rw [h.nominated] at hn; cases hn }
  unspent pid strand hs := by
    rw [h.fresh pid strand hs, h.used]
    intro u hu
    cases hu

theorem Waiting.still (h : x.Waiting) :
    (∀ pid, (x.call (.nominate pid)).2 = x) ∧ ∀ data, (x.call (.createFrame data)).2 = x := by
  constructor
  · intro pid
    rcases nominate_cases x pid with ⟨fault, he⟩ | ⟨inbox, transport, hs, -⟩ |
      ⟨inbox, transport, hs, -⟩
    · rw [he]
    · cases h.fresh pid _ hs
    · cases h.fresh pid _ hs
  · intro data
    simp only [call, createFrame, h.nominated]

theorem Greets.distinct {now : Nat} {l strands : List (PathId × Strand)}
    {frames : List (PathId × Bytes)} (h : Greets S d now l frames strands used)
    (paths : (l.map Prod.fst).Nodup) : (used.map Sealing.place).Nodup := by
  induction h with
  | nil => exact List.nodup_nil
  | @cons p strand rest strands frames used secret challenge tail ih =>
    obtain ⟨hp, paths⟩ := List.nodup_cons.1 paths
    rw [List.map_append]
    refine (ih paths).append (List.nodup_singleton _) ?_
    intro place hm hl
    obtain ⟨u, hu, rfl⟩ := List.mem_map.1 hm
    obtain ⟨q, hq, challenge', secret', rfl⟩ := tail.mem_used hu
    have same : q = p := (Nonce.make_inj (congrArg Prod.snd (List.mem_singleton.1 hl))).1
    exact hp (same ▸ hq)

theorem Waiting.start (h : x.Waiting) (now : Nat) (s : Entropy) :
    (x.call (.start now s)).2.started = true ∧ (x.call (.start now s)).2.Fresh := by
  rcases start_cases x now s with ⟨started, -⟩ | ⟨-, -, he⟩ | ⟨-, -, frames, strands, used, greets, he⟩
  · rw [h.started] at started; cases started
  · rw [he]
    exact ⟨rfl, h.isFresh.distinct, ⟨h.isFresh.settled.named, h.isFresh.settled.stays⟩,
      h.isFresh.unspent⟩
  · rw [he, h.used, List.append_nil]
    have greeted (pid : PathId) (strand : Strand)
        (hs : strand? ({ x with started := true, strands, used } : Exchange S) pid = some strand) :
        ∃ secret challenge, strand.stage = .awaitingAuthHello secret challenge now := by
      have hl : strands.lookup pid = some strand := by simpa [strand?, h.nominated] using hs
      rcases greets.greeted pid with ⟨-, none, -⟩ | ⟨old, secret, challenge, -, some, -⟩
      · rw [none] at hl; cases hl
      · obtain rfl := Option.some.inj (some.symm.trans hl)
        exact ⟨secret, challenge, rfl⟩
    refine ⟨rfl, greets.distinct h.paths, ?_, fun pid strand hs => ?_⟩
    · refine ⟨fun pid strand hs hn => ?_, fun pid strand hn => ?_⟩
      · obtain ⟨secret, challenge, stage⟩ := greeted pid strand hs
        rw [stage] at hn
        cases hn
      · rw [h.nominated] at hn
        cases hn
    · obtain ⟨secret, challenge, stage⟩ := greeted pid strand hs
      rw [stage]
      intro u hu count _
      obtain ⟨q, -, challenge', secret', rfl⟩ := greets.mem_used hu
      rfl

/-! ### The life of an exchange -/

/-- No chunk is handed over and no frame asked for before the first start. -/
def Heralded : List Call → Prop
  | [] | .start .. :: _ => True
  | .addChunk .. :: _ | .processFrame .. :: _ => False
  | .nominate _ :: cs | .createFrame _ :: cs => Heralded cs

def calls (cs : List Call) (x : Exchange S) : Exchange S := cs.foldl (fun x c => (x.call c).2) x

/-- `KeysApart` holds before every call and at the end. -/
def StaysApart : List Call → Exchange S → Prop
  | [], x => x.KeysApart
  | c :: cs, x => x.KeysApart ∧ StaysApart cs (x.call c).2

theorem StaysApart.head {cs : List Call} (h : StaysApart cs x) : x.KeysApart := by
  cases cs with
  | nil => exact h
  | cons => exact h.1

def Runs (x : Exchange S) : Prop := x.started = true ∧ x.Fresh

theorem Runs.turn (h : x.Runs) (apart : x.KeysApart) {c : Call} {ys : List (PathId × Outcome)}
    (apart' : x'.KeysApart) (t : x.Turn c ys x') : x'.Runs := by
  cases t with
  | still => exact h
  | turned deed t => exact ⟨t.started.trans h.1, h.2.turned apart apart' deed t⟩

theorem Runs.call (h : x.Runs) (apart : x.KeysApart) (c : Call)
    (apart' : (x.call c).2.KeysApart) : (x.call c).2.Runs :=
  h.turn apart apart' (h.2.settled.turn_call h.1 c)

theorem Runs.calls (h : x.Runs) {cs : List Call} (apart : StaysApart cs x) :
    (x.calls cs).Fresh := by
  induction cs generalizing x with
  | nil => exact h.2
  | cons c cs ih => exact ih (h.call apart.1 c apart.2.head) apart.2

theorem Waiting.calls (h : x.Waiting) {cs : List Call} (order : Heralded cs)
    (apart : StaysApart cs x) : (x.calls cs).Fresh := by
  induction cs with
  | nil => exact h.isFresh
  | cons c cs ih =>
    have rest : x.calls (c :: cs) = (x.call c).2.calls cs := rfl
    obtain ⟨-, tail⟩ := apart
    rw [rest]
    cases c with
    | start now s => exact Runs.calls (h.start now s) tail
    | addChunk | processFrame => exact order.elim
    | nominate pid =>
      rw [h.still.1 pid] at tail ⊢
      exact ih order tail
    | createFrame data =>
      rw [h.still.2 data] at tail ⊢
      exact ih order tail

/-- Whatever a device is given, it never uses a key twice with the same nonce, as long as no path sends
under the key of the device's first messages. Failing calls are included; only `addChunk` and
`processFrame` must come after the start. -/
theorem no_nonce_twice {setup : Setup} {x : Exchange S} (new : Exchange.new S setup = .ok x)
    {cs : List Call} (order : Heralded cs) (apart : StaysApart cs x) :
    ((x.calls cs).used.map fun u => (u.key, u.nonce)).Nodup :=
  ((waiting_new new).calls order apart).distinct

theorem mem_of_lookup {l : List (PathId × Strand)} {pid : PathId} {strand : Strand}
    (h : l.lookup pid = some strand) : (pid, strand) ∈ l := by
  induction l with
  | nil => cases h
  | cons e rest ih =>
    obtain ⟨p, old⟩ := e
    rw [lookup_cons] at h
    split_ifs at h with hp
    · obtain rfl := Option.some.inj h
      exact hp ▸ List.mem_cons_self
    · exact List.mem_cons_of_mem _ (ih h)

theorem mem_pids_of_strand? {pid : PathId} {strand : Strand} (h : x.strand? pid = some strand) :
    pid ∈ x.pids := by
  unfold strand? at h
  split_ifs at h
  exact List.mem_map_of_mem (mem_of_lookup h)

/-- Only the listed paths are checked; to check all path numbers would take too long. -/
instance decidableKeysApart (x : Exchange S) : Decidable x.KeysApart :=
  have := List.decidableBAll (fun pid => ∀ strand ∈ x.strand? pid, ∀ l ∈ strand.stage.tx?,
    l.key ≠ S.authKey x.device.ak x.device.role) x.pids
  decidable_of_iff (∀ pid ∈ x.pids, ∀ strand ∈ x.strand? pid, ∀ l ∈ strand.stage.tx?,
      l.key ≠ S.authKey x.device.ak x.device.role)
    ⟨fun h pid strand l hs => h pid (mem_pids_of_strand? hs) strand hs l,
      fun h pid _ strand hs l hl => h pid strand l hs hl⟩

instance decidableStaysApart : (cs : List Call) → (x : Exchange S) → Decidable (StaysApart cs x)
  | [], x => decidableKeysApart x
  | c :: cs, x =>
    have := decidableStaysApart cs (x.call c).2
    inferInstanceAs (Decidable (x.KeysApart ∧ StaysApart cs (x.call c).2))

/-- A responder with one path, from its hello to its second payload, with a nomination before the start
and a second start. -/
def plainLife : List Call :=
  let bytes (n : UInt8) : Bytes := List.replicate 32 n
  let answer := (Lane.start (Suite.plain.authKey (Octets.zero 32) .initiator) 7
    (.outbound .initiator)).framed Suite.plain
      (.authHello (Octets.fit 16 (bytes 1)) (Octets.fit 16 (bytes 2)) (Octets.fit 32 (bytes 2)))
  [.nominate 7, .start 0 (.cycle [1]), .start 0 (.cycle [1]), .addChunk 7 answer,
    .processFrame 7 0 (.cycle []), .nominate 7, .createFrame [1], .createFrame [1]]

theorem no_nonce_twice_plain :
    let x : Exchange Suite.plain :=
      ⟨⟨.responder, true, Octets.zero 32⟩, [(7, .fresh)], false, none, []⟩
    Exchange.new Suite.plain ⟨.responder, true, Octets.zero 32, [7]⟩ = .ok x ∧
      Heralded plainLife ∧ StaysApart plainLife x ∧ (x.calls plainLife).used.length = 5 ∧
      ((x.calls plainLife).used.map fun u => (u.key, u.nonce)).Nodup := by
  intro x
  have new : Exchange.new Suite.plain ⟨.responder, true, Octets.zero 32, [7]⟩ = .ok x := by
    simp [Exchange.new, x]
  have apart : StaysApart plainLife x := by decide +kernel
  exact ⟨new, trivial, apart, by decide +kernel, no_nonce_twice new trivial apart⟩

end Exchange

end PathRace
