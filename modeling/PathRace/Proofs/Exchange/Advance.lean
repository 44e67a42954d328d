import PathRace.Exchange
import PathRace.Proofs.Wire.Lane

/-! The transitions of one path. `Advance` has a constructor for each frame that a stage accepts; every
other frame is refused and uses no key (`step_cases`). `step_of_hello` and the lemmas after it give the
converse: a stage accepts the frame it waits for. -/

namespace PathRace

theorem Transport.isExhausted_start_tx (role : Role) (pid : PathId) (keys : PathKeys) :
    (Transport.start role pid keys).tx.isExhausted = false := Lane.isExhausted_start ..

namespace Device

theorem isExhausted_authLane (S : Suite) (d : Device) (sender : Role) (pid : PathId) :
    (d.authLane S sender pid).isExhausted = false := Lane.isExhausted_start ..

variable {S : Suite} {d : Device} {pid : PathId} {now : Nat} {c : Bytes} {s : Entropy}

/-- How a ciphertext advances a stage, with the outcome and the uses of keys. -/
inductive Advance (S : Suite) (d : Device) (pid : PathId) (now : Nat) (c : Bytes) :
    Stage → Stage → Outcome → List Sealing → Prop
  | answered {secret : Octets 32} {own challenge : Challenge} {key : PublicKey}
      {shared : Octets 32} {lane : Lane}
      (opened : (d.authLane S d.role.peer pid).receive S c = (.ok (.hello challenge key), lane))
      (agreed : S.agree secret key = some shared) :
      Advance S d pid now c .awaitingHello
        (.awaitingAuth (.start d.role pid (S.pathKeys d.ak shared)) own now)
        (.frame ((d.authLane S d.role pid).framed S (.authHello challenge own (S.publicKey secret))))
        [(d.authLane S d.role pid).sealing
          (Message.authHello challenge own (S.publicKey secret)).encode]
  | proven {secret : Octets 32} {own challenge : Challenge} {sentAt : Nat} {key : PublicKey}
      {shared : Octets 32} {lane : Lane} {transport : Transport}
      (opened : (d.authLane S d.role.peer pid).receive S c = (.ok (.authHello own challenge key), lane))
      (agreed : S.agree secret key = some shared)
      (start : transport = .start d.role pid (S.pathKeys d.ak shared)) :
      Advance S d pid now c (.awaitingAuthHello secret own sentAt)
        (.ready { transport with tx := transport.tx.advance })
        ((Outcome.frame (transport.tx.framed S (.auth challenge))).adding
          (.ready (roundTrip sentAt now)))
        [transport.tx.sealing (Message.auth challenge).encode]
  | confirmed {transport : Transport} {own : Challenge} {sentAt : Nat} {rx : Lane}
      (opened : transport.rx.receive S c = (.ok (.auth own), rx)) :
      Advance S d pid now c (.awaitingAuth transport own sentAt) (.ready { transport with rx })
        (.news (.ready (roundTrip sentAt now))) []
  | nominated {transport : Transport} {rx : Lane}
      (opened : transport.rx.receive S c = (.ok .nominate, rx)) (follows : d.isNominator = false) :
      Advance S d pid now c (.ready transport) (.nominated { transport with rx })
        (.news (.nominated transport.hash)) []
  | carried {transport : Transport} {data : Bytes} {rx : Lane}
      (opened : transport.rx.receive S c = (.ok (.ulp data), rx)) :
      Advance S d pid now c (.nominated transport) (.nominated { transport with rx })
        (.data data) []

/-- Either the ciphertext advances the stage, or it is refused and no key is used. -/
def Taken (S : Suite) (d : Device) (pid : PathId) (now : Nat) (c : Bytes) (stage : Stage)
    (t : Step) : Prop :=
  (∃ stage' o, t.result = .ok (stage', o) ∧ Advance S d pid now c stage stage' o t.used) ∨
    (∃ fault, t.result = .error fault) ∧ t.used = []

theorem taken_error {stage : Stage} (fault : EngineFault) (s : Entropy) :
    Taken S d pid now c stage ⟨.error fault, [], s⟩ := .inr ⟨⟨fault, rfl⟩, rfl⟩

theorem taken_hello : Taken S d pid now c .awaitingHello (d.onHello S pid now c s) := by
  unfold onHello
  split
  · exact taken_error ..
  · rename_i challenge key lane opened
    dsimp only
    split
    · exact taken_error ..
    · rename_i shared agreed
      rw [Lane.send_of_fits (isExhausted_authLane ..) (Lane.fits_authHello ..)]
      exact .inl ⟨_, _, rfl, .answered opened agreed⟩
  · exact taken_error ..

theorem taken_authHello {secret : Octets 32} {own : Challenge} {sentAt : Nat} :
    Taken S d pid now c (.awaitingAuthHello secret own sentAt)
      (d.onAuthHello S pid now secret own sentAt c s) := by
  unfold onAuthHello
  split
  · exact taken_error ..
  · rename_i response challenge key lane opened
    split_ifs with hr
    · exact taken_error ..
    · obtain rfl : response = own := not_not.1 hr
      split
      · exact taken_error ..
      · rename_i shared agreed
        dsimp only
        rw [Lane.send_of_fits (Transport.isExhausted_start_tx ..) (Lane.fits_auth ..)]
        exact .inl ⟨_, _, rfl, .proven opened agreed rfl⟩
  · exact taken_error ..

theorem taken_auth {transport : Transport} {own : Challenge} {sentAt : Nat} :
    Taken S d pid now c (.awaitingAuth transport own sentAt)
      (onAuth S now transport own sentAt c s) := by
  unfold onAuth
  split
  · exact taken_error ..
  · rename_i response rx opened
    split_ifs with hr
    · exact taken_error ..
    · obtain rfl : response = own := not_not.1 hr
      exact .inl ⟨_, _, rfl, .confirmed opened⟩
  · exact taken_error ..

theorem taken_nominate {transport : Transport} :
    Taken S d pid now c (.ready transport) (d.onNominate S transport c s) := by
  unfold onNominate
  split
  · exact taken_error ..
  · rename_i m rx opened
    split_ifs with hm
    · exact taken_error ..
    · obtain ⟨rfl, follows⟩ : m = .nominate ∧ d.isNominator = false := by simpa using hm
      exact .inl ⟨_, _, rfl, .nominated opened follows⟩

theorem taken_ulp {transport : Transport} :
    Taken S d pid now c (.nominated transport) (onUlp S transport c s) := by
  unfold onUlp
  split
  · exact taken_error ..
  · rename_i data rx opened
    exact .inl ⟨_, _, rfl, .carried opened⟩
  · exact taken_error ..

theorem step_cases (stage : Stage) : Taken S d pid now c stage (d.step S pid now stage c s) := by
  cases stage with
  | awaitingHello => exact taken_hello
  | awaitingAuthHello => exact taken_authHello
  | awaitingAuth => exact taken_auth
  | ready => exact taken_nominate
  | nominated => exact taken_ulp
  | failed => exact taken_error ..

/-! ### Frames that are taken -/

theorem step_of_hello {challenge : Challenge} {key : PublicKey} {shared : Octets 32} {lane : Lane}
    (opened : (d.authLane S d.role.peer pid).receive S c = (.ok (.hello challenge key), lane))
    (agreed : S.agree (s.draw 32).1 key = some shared) :
    (d.step S pid now .awaitingHello c s).result =
      .ok (.awaitingAuth (.start d.role pid (S.pathKeys d.ak shared)) ((s.draw 32).2.draw 16).1 now,
        .frame ((d.authLane S d.role pid).framed S
          (.authHello challenge ((s.draw 32).2.draw 16).1 (S.publicKey (s.draw 32).1)))) := by
  simp only [step, onHello, opened, agreed,
    Lane.send_of_fits (isExhausted_authLane ..) (Lane.fits_authHello ..)]
  rfl

theorem step_of_authHello {secret : Octets 32} {own challenge : Challenge} {sentAt : Nat}
    {key : PublicKey} {shared : Octets 32} {lane : Lane}
    (opened : (d.authLane S d.role.peer pid).receive S c = (.ok (.authHello own challenge key), lane))
    (agreed : S.agree secret key = some shared) :
    let transport := Transport.start d.role pid (S.pathKeys d.ak shared)
    (d.step S pid now (.awaitingAuthHello secret own sentAt) c s).result =
      .ok (.ready { transport with tx := transport.tx.advance },
        (Outcome.frame (transport.tx.framed S (.auth challenge))).adding
          (.ready (roundTrip sentAt now))) := by
  simp only [step, onAuthHello, opened, agreed, ne_eq, not_true_eq_false, if_false,
    Lane.send_of_fits (Transport.isExhausted_start_tx ..) (Lane.fits_auth ..)]
  rfl

theorem step_of_auth {transport : Transport} {own : Challenge} {sentAt : Nat} {rx : Lane}
    (opened : transport.rx.receive S c = (.ok (.auth own), rx)) :
    (d.step S pid now (.awaitingAuth transport own sentAt) c s).result =
      .ok (.ready { transport with rx }, .news (.ready (roundTrip sentAt now))) := by
  simp [step, onAuth, opened]

theorem step_of_nominate {transport : Transport} {rx : Lane}
    (opened : transport.rx.receive S c = (.ok .nominate, rx)) (follows : d.isNominator = false) :
    (d.step S pid now (.ready transport) c s).result =
      .ok (.nominated { transport with rx }, .news (.nominated transport.hash)) := by
  simp [step, onNominate, opened, follows]

end Device

end PathRace
