import PathRace.Proofs.Pair.Fair

/-! Honest handshakes succeed. On a network that loses, reorders and changes nothing, every call
succeeds, a handshake whose frames have all been delivered leaves both ends ready with the same keys,
and a nomination that has been delivered is reported by both sides. -/

namespace PathRace

namespace Relay

variable {S : Suite} {ak : AuthKey} {nominator : Role} {pids : List PathId} {v : Relay S}
  {pid : PathId} {strand : Role → Strand}

theorem Link.pending_of_drained (h : v.Link ak nominator pid strand) {r : Role} {s : Strand}
    (hs : (v.pair.engine r).strand? pid = some s) (drained : v.Drained r pid) :
    v.pending pid strand r = [] := by
  obtain ⟨flight, buffered⟩ := drained
  rw [Exchange.buffered_of_strand? hs, h.shown r s hs] at buffered
  rw [pending, List.length_eq_zero_iff.1 buffered, flight, List.append_nil]

theorem Fair.of_nominated (h : v.Fair ak nominator pids) {r : Role}
    (hn : (v.pair.engine r).nominated = some pid) (hl : v.Link ak nominator pid strand) :
    (strand r).stage.isNominated = true ∧
      Pair.Joint S ak nominator pid (fun q => (strand q).stage) (v.pending pid strand) := by
  obtain ⟨s, hs⟩ := h.reach r pid (h.chosen r pid hn) (.inr hn)
  have named : (strand r).stage.isNominated = true := by
    rcases (h.settled r).stays pid s hn hs with hi | hf
    · exact hl.shown r s hs ▸ hi
    · exact (hl.point.works r (hl.shown r s hs ▸ hf)).elim
  refine ⟨named, ?_⟩
  rcases hl.point with ⟨-, waiting⟩ | ⟨-, joint⟩
  · rw [(waiting r).1] at named; cases named
  · exact joint

theorem Fair.follows (h : v.Fair ak nominator pids)
    (hn : (v.pair.engine nominator.peer).nominated = some pid) :
    (v.pair.engine nominator).nominated = some pid := by
  obtain ⟨strand, hl⟩ := h.linked pid (h.chosen _ pid hn)
  obtain ⟨named, joint⟩ := h.of_nominated hn hl
  exact hl.named nominator (joint.precedes named)

theorem Fair.unchosen (h : v.Fair ak nominator pids) (hn : (v.pair.engine nominator).nominated = none)
    (r : Role) : (v.pair.engine r).nominated = none := by
  rcases Role.eq_or_eq_peer r nominator with rfl | rfl
  · exact hn
  · cases hp : (v.pair.engine nominator.peer).nominated with
    | none => rfl
    | some p => rw [h.follows hp] at hn; cases hn

theorem Fair.ready (h : v.Fair ak nominator pids) (hp : pid ∈ pids)
    (started : (v.pair.engine .responder).started = true)
    (hn : (v.pair.engine nominator).nominated = none) (drained : ∀ r, v.Drained r pid) :
    ∃ t : Role → Transport, ∀ r,
      (∃ inbox, (v.pair.engine r).strand? pid = some ⟨inbox, .ready (t r)⟩) ∧
      (t r).hash = (t r.peer).hash ∧ (t r).tx = (t r.peer).rx := by
  obtain ⟨strand, hl⟩ := h.linked pid hp
  have shown (r : Role) : (v.pair.engine r).strand? pid = some (strand r) := by
    obtain ⟨s, hs⟩ := h.reach r pid hp (.inl (h.unchosen hn r))
    rw [hs, hl.shown r s hs]
  have quiet (r : Role) := hl.pending_of_drained (shown r) (drained r)
  have unnamed : (strand nominator).stage.isNominated = false := by
    by_contra hi
    have named := hl.named nominator (by simpa using hi)
    rw [hn] at named
    cases named
  rcases hl.point with ⟨fresh, -⟩ | ⟨-, joint⟩
  · rw [started] at fresh; cases fresh
  obtain ⟨a, stages⟩ := joint.ready_of_quiet quiet unnamed
  refine ⟨a.ready ak pid, fun r => ⟨⟨(strand r).inbox, ?_⟩, ?_, (a.rx_ready ak pid r).symm⟩⟩
  · rw [shown, ← stages r]
  · rw [a.hash_ready, a.hash_ready]

theorem Fair.nominated (h : v.Fair ak nominator pids)
    (hn : (v.pair.engine nominator).nominated = some pid) (drained : v.Drained nominator.peer pid) :
    ∃ hash, ∀ r, (v.pair.engine r).nominated = some pid ∧ v.pair.Reported r pid hash := by
  have hp := h.chosen nominator pid hn
  obtain ⟨strand, hl⟩ := h.linked pid hp
  obtain ⟨named, joint⟩ := h.of_nominated hn hl
  have reached : (v.pair.engine nominator.peer).nominated = none ∨
      (v.pair.engine nominator.peer).nominated = some pid := by
    cases hq : (v.pair.engine nominator.peer).nominated with
    | none => exact .inl rfl
    | some p => exact .inr ((h.follows hq).symm.trans hn)
  obtain ⟨s, hs⟩ := h.reach _ pid hp reached
  obtain ⟨a, mine, theirs⟩ := joint.settled_of_quiet named (hl.pending_of_drained hs drained)
  have stages (r : Role) : ∃ t : Transport, (strand r).stage = .nominated t ∧
      t.hash = (a.keys ak).hash := by
    rcases Role.eq_or_eq_peer r nominator with rfl | rfl
    · exact ⟨_, mine, a.hash_ready ak pid _⟩
    · exact ⟨_, theirs, a.hash_ready ak pid _⟩
  refine ⟨(a.keys ak).hash, fun r => ?_⟩
  obtain ⟨t, stage, hash⟩ := stages r
  have hr := hl.named r (by rw [stage]; rfl)
  obtain ⟨s, hs⟩ := h.reach r pid hp (.inr hr)
  exact ⟨hr, hash ▸ h.reported r pid s t hs (by rw [hl.shown r s hs, stage])⟩

/-- In every orderly run no call fails. Before the nomination, a path whose handshake frames have been
delivered and processed is ready at both ends, and each end sends with the keys the other receives with.
After the nomination has been delivered and processed, both devices have nominated the same path and
reported the same hash. -/
theorem honest_handshake (agrees : S.Agrees) (met : v.Met ak nominator pids) (ms : List Move)
    (orderly : Orderly nominator pids ms v) :
    let u := run ms v
    Succeeds ms v ∧
    (∀ pid ∈ pids, (u.pair.engine .responder).started = true →
      (u.pair.engine nominator).nominated = none → (∀ r, u.Drained r pid) →
      ∃ t : Role → Transport, ∀ r,
        (∃ inbox, (u.pair.engine r).strand? pid = some ⟨inbox, .ready (t r)⟩) ∧
        (t r).hash = (t r.peer).hash ∧ (t r).tx = (t r.peer).rx) ∧
    (∀ pid, (u.pair.engine nominator).nominated = some pid → u.Drained nominator.peer pid →
      ∃ hash, ∀ r, (u.pair.engine r).nominated = some pid ∧ u.pair.Reported r pid hash) := by
  intro u
  obtain ⟨succeeds, fair⟩ : Succeeds ms v ∧ u.Fair ak nominator pids :=
    (fair_met met).run agrees ms orderly
  exact ⟨succeeds, fun pid hp started => fair.ready hp started, fun pid => fair.nominated⟩

/-! ### A handshake in pieces -/

def plainRelay : Relay Suite.plain := ⟨Pair.plainPair, fun _ _ => []⟩

/-- Part of the first frame is delivered early and processed too early. -/
def plainHandshake : List Move :=
  let take (r : Role) (n : UInt8) : Move := .process r 7 0 (.cycle [n])
  [.start .responder 0 (.cycle [1]), .start .initiator 0 (.cycle []),
    .deliver .initiator 7 6, take .initiator 2, .deliver .initiator 7 100, take .initiator 2,
    .deliver .responder 7 100, take .responder 0, .deliver .initiator 7 100, take .initiator 0]

def plainNomination : List Move :=
  [.nominate .initiator 7, .deliver .responder 7 100, .process .responder 7 0 (.cycle [])]

theorem honest_handshake_plain :
    Suite.plain.Agrees ∧ plainRelay.Met (Octets.zero 32) .initiator [7] ∧
    Orderly .initiator [7] plainHandshake plainRelay ∧
    Orderly .initiator [7] (plainHandshake ++ plainNomination) plainRelay ∧
    (∃ t : Role → Transport, ∀ r,
      (∃ inbox, ((run plainHandshake plainRelay).pair.engine r).strand? 7 =
        some ⟨inbox, .ready (t r)⟩) ∧
      (t r).hash = (t r.peer).hash ∧ (t r).tx = (t r.peer).rx) ∧
    ∃ hash, ∀ r, ((run (plainHandshake ++ plainNomination) plainRelay).pair.engine r).nominated =
      some 7 ∧ (run (plainHandshake ++ plainNomination) plainRelay).pair.Reported r 7 hash := by
  have agrees : Suite.plain.Agrees := fun a b => ⟨_, rfl, Suite.plain_symm b a⟩
  have met : plainRelay.Met (Octets.zero 32) .initiator [7] := ⟨Pair.met_plainPair, fun _ _ => rfl⟩
  have orderly : Orderly .initiator [7] plainHandshake plainRelay := by decide +kernel
  have orderly' : Orderly .initiator [7] (plainHandshake ++ plainNomination) plainRelay := by
    decide +kernel
  obtain ⟨-, ready, -⟩ := honest_handshake agrees met plainHandshake orderly
  obtain ⟨-, -, nominated⟩ := honest_handshake agrees met (plainHandshake ++ plainNomination) orderly'
  refine ⟨agrees, met, orderly, orderly', ready 7 (by simp) (by decide +kernel) (by decide +kernel) ?_,
    nominated 7 (by decide +kernel) (by decide +kernel)⟩
  intro r
  cases r <;> decide +kernel

end Relay

end PathRace
