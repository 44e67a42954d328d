import PathRace.Proofs.Pair.Sound
import PathRace.Proofs.Wire.Plain

/-! Agreement: two devices never report different nominations. -/

namespace PathRace

namespace Pair

variable {S : Suite} {ak : AuthKey} {nominator : Role} {w : Pair S}

/-- Against any network, the peer of the nominator reports only the nomination that the nominator has
reported before, with the same path and hash. -/
theorem nominations_agree
    (symm : ∀ a b, S.agree a (S.publicKey b) = S.agree b (S.publicKey a))
    {pids : Role → List PathId} (met : w.Met ak nominator pids) (ms : List (Role × Call))
    (genuine : Genuine ms w) :
    let v := w.run ms
    (∀ later earlier pid o hash, v.log = later ++ (nominator.peer, pid, o) :: earlier →
      o.update = some (.nominated hash) →
      ∃ o', (nominator, pid, o') ∈ earlier ∧ o'.update = some (.nominated hash)) ∧
    (∀ pid pid' hash hash', v.Reported nominator.peer pid hash → v.Reported nominator pid' hash' →
      pid = pid' ∧ hash = hash') ∧
    (∀ pid pid', (v.engine nominator.peer).nominated = some pid →
      (v.engine nominator).nominated = some pid' → pid = pid') := by
  intro v
  have sound : v.Sound ak nominator :=
    run_keeps (fun _ m auth h => sound_after symm h m auth) ms genuine (sound_met met)
  have theirs {pid : PathId} {hash : PathHash} (hr : v.Reported nominator.peer pid hash) :
      v.Reported nominator pid hash := by
    obtain ⟨o, ho, hu⟩ := hr
    obtain ⟨later, earlier, he⟩ := List.append_of_mem ho
    obtain ⟨o', ho', hu'⟩ := sound.preceded later earlier pid o hash he hu
    exact ⟨o', by rw [he]; exact List.mem_append_right _ (List.mem_cons_of_mem _ ho'), hu'⟩
  have one {pid pid' : PathId} {hash hash' : PathHash} (hr : v.Reported nominator pid hash)
      (hr' : v.Reported nominator pid' hash') : pid = pid' := by
    obtain ⟨hn, -⟩ := sound.reported _ _ _ hr
    obtain ⟨hn', -⟩ := sound.reported _ _ _ hr'
    exact Option.some.inj (hn.symm.trans hn')
  refine ⟨sound.preceded, fun pid pid' hash hash' hr hr' => ?_, fun pid pid' hn hn' => ?_⟩
  · obtain rfl := one (theirs hr) hr'
    obtain ⟨-, keys, ha, rfl⟩ := sound.reported _ _ _ hr'
    obtain ⟨-, keys', ha', rfl⟩ := sound.reported _ _ _ hr
    exact ⟨rfl, by rw [sound.agreed_eq symm ha ha']⟩
  · obtain ⟨hash, hr⟩ := sound.named _ _ hn
    obtain ⟨hash', hr'⟩ := sound.named _ _ hn'
    exact one (theirs hr) hr'

/-! ### A meeting on one path -/

def plainSecret (n : UInt8) : Octets 32 := Octets.fit 32 (List.replicate 32 n)

def plainChallenge (n : UInt8) : Challenge := Octets.fit 16 (List.replicate 16 n)

def plainKeys : PathKeys :=
  Suite.plain.pathKeys (Octets.zero 32) (Suite.plainAgree (plainSecret 1) (plainSecret 2))

/-- A frame with counter zero under the given key. -/
def plainFrame (key : Key) (sender : Role) (m : Message) : Bytes :=
  (Lane.start key 7 (.outbound sender)).framed Suite.plain m

/-- A handshake with a nomination, and a replayed hello after it. -/
def plainMeeting : List (Role × Call) :=
  let take (r : Role) (n : UInt8) : Role × Call := (r, .processFrame 7 0 (.cycle [n]))
  let hello := plainFrame (Suite.plain.authKey (Octets.zero 32) .responder) .responder
    (.hello (plainChallenge 1) (plainSecret 1))
  let authHello := plainFrame (Suite.plain.authKey (Octets.zero 32) .initiator) .initiator
    (.authHello (plainChallenge 1) (plainChallenge 2) (plainSecret 2))
  let auth := plainFrame plainKeys.responder .responder (.auth (plainChallenge 2))
  let nomination := plainFrame plainKeys.initiator .initiator .nominate
  [(.responder, .start 0 (.cycle [1])), (.initiator, .start 0 (.cycle [])),
    (.initiator, .addChunk 7 hello), take .initiator 2,
    (.responder, .addChunk 7 authHello), take .responder 0,
    (.initiator, .addChunk 7 auth), take .initiator 0, (.initiator, .nominate 7),
    (.responder, .addChunk 7 nomination), take .responder 0,
    (.initiator, .addChunk 7 hello), take .initiator 0]

theorem nominations_agree_plain :
    (∀ a b, Suite.plain.agree a (Suite.plain.publicKey b) =
      Suite.plain.agree b (Suite.plain.publicKey a)) ∧
    plainPair.Met (Octets.zero 32) .initiator (fun _ => [7]) ∧ Genuine plainMeeting plainPair ∧
    (plainPair.run plainMeeting).Reported .responder 7 plainKeys.hash ∧
    (plainPair.run plainMeeting).Reported .initiator 7 plainKeys.hash := by
  have genuine : Genuine plainMeeting plainPair := by decide +kernel
  have taken : (plainPair.run plainMeeting).Reported .responder 7 plainKeys.hash :=
    ⟨.news (.nominated plainKeys.hash), by decide +kernel, rfl⟩
  obtain ⟨preceded, -, -⟩ := nominations_agree Suite.plain_symm met_plainPair plainMeeting genuine
  obtain ⟨o, ho, hu⟩ := taken
  obtain ⟨later, earlier, he⟩ := List.append_of_mem ho
  obtain ⟨o', ho', hu'⟩ := preceded later earlier 7 o _ he hu
  refine ⟨Suite.plain_symm, met_plainPair, genuine, ⟨o, ho, hu⟩, o', ?_, hu'⟩
  rw [he]
  exact List.mem_append_right _ (List.mem_cons_of_mem _ ho')

end Pair

end PathRace
