import PathRace.Message
import PathRace.Frame

/-!
The cryptography an attempt needs, as one record, and a lane: one direction of one path with its
key and the number of its next frame. Every frame has a nonce of its own.
-/

namespace PathRace

/-- The keys and the hash that a key exchange yields for one path. -/
structure PathKeys where
  initiator : Key
  responder : Key
  hash : PathHash
  deriving DecidableEq

def PathKeys.sender (k : PathKeys) : Role → Key
  | .initiator => k.initiator
  | .responder => k.responder

structure Suite where
  encrypt : Key → Nonce → Bytes → Bytes
  decrypt : Key → Nonce → Bytes → Option Bytes
  /-- The key of a role's first message. -/
  authKey : AuthKey → Role → Key
  publicKey : Octets 32 → PublicKey
  /-- `none` if the other key contributes nothing. -/
  agree : Octets 32 → PublicKey → Option (Octets 32)
  pathKeys : AuthKey → Octets 32 → PathKeys
  length_encrypt : ∀ k n p, (encrypt k n p).length = p.length + Limit.tagSize
  decrypt_encrypt : ∀ k n p, decrypt k n (encrypt k n p) = some p

inductive Direction
  | toResponder
  | toInitiator
  deriving DecidableEq, Repr

namespace Direction

def outbound : Role → Direction
  | .initiator => toResponder
  | .responder => toInitiator

def opposite : Direction → Direction
  | toResponder => toInitiator
  | toInitiator => toResponder

def byte : Direction → UInt8
  | toResponder => 0
  | toInitiator => 1

def text : Direction → String
  | toResponder => "InitiatorToResponder"
  | toInitiator => "ResponderToInitiator"

end Direction

/-- Path, direction and counter; the eleven bytes between are zero. -/
def Nonce.make (pid : PathId) (direction : Direction) (counter : UInt64) : Nonce :=
  ⟨Bytes.le 4 pid.toNat ++ (direction.byte :: List.replicate 11 0) ++ Bytes.le 8 counter.toNat,
    by simp⟩

structure Lane where
  key : Key
  pid : PathId
  direction : Direction
  counter : UInt64
  deriving DecidableEq

/-- One use of a key: the nonce and the plaintext. -/
structure Sealing where
  key : Key
  nonce : Nonce
  plaintext : Bytes
  deriving DecidableEq

namespace Lane

def start (key : Key) (pid : PathId) (direction : Direction) : Lane := ⟨key, pid, direction, 0⟩

/-- The last counter value is never used. -/
def isExhausted (l : Lane) : Bool := l.counter == 0xffffffffffffffff

def nonce (l : Lane) : Nonce := Nonce.make l.pid l.direction l.counter

def advance (l : Lane) : Lane := { l with counter := l.counter + 1 }

def sealing (l : Lane) (plaintext : Bytes) : Sealing := ⟨l.key, l.nonce, plaintext⟩

def encrypt (S : Suite) (plaintext : Bytes) (l : Lane) : Except CryptoFault Bytes × Lane :=
  if l.isExhausted then (.error .counterExhaustion, l)
  else (.ok (S.encrypt l.key l.nonce plaintext), l.advance)

/-- The counter advances only if the ciphertext opens. -/
def decrypt (S : Suite) (ciphertext : Bytes) (l : Lane) : Except CryptoFault Bytes × Lane :=
  if l.isExhausted then (.error .counterExhaustion, l)
  else
    match S.decrypt l.key l.nonce ciphertext with
    | none => (.error .decryptionFailed, l)
    | some plaintext => (.ok plaintext, l.advance)

structure Sent where
  frame : Except EngineFault Bytes
  lane : Lane
  used : List Sealing

/-- A frame that would be too long uses up a counter value; its ciphertext is not computed. -/
def send (S : Suite) (m : Message) (l : Lane) : Sent :=
  let plaintext := m.encode
  if l.isExhausted then ⟨.error (.crypto .counterExhaustion), l, []⟩
  else
    let length := plaintext.length + Limit.tagSize
    let frame :=
      if Limit.frame < length then .error (.frameTooLarge length Limit.frame)
      else Frame.encode (S.encrypt l.key l.nonce plaintext)
    ⟨frame, l.advance, [l.sealing plaintext]⟩

theorem frame_send (S : Suite) (m : Message) (l : Lane) (h : l.isExhausted = false) :
    (send S m l).frame = Frame.encode (S.encrypt l.key l.nonce m.encode) := by
  simp only [send, h, Bool.false_eq_true, if_false]
  split
  · rename_i hl
    simp [Frame.encode, S.length_encrypt, hl]
  · rfl

def receive (S : Suite) (ciphertext : Bytes) (l : Lane) : Except EngineFault Message × Lane :=
  match l.decrypt S ciphertext with
  | (.error fault, l) => (.error (.crypto fault), l)
  | (.ok plaintext, l) => (Message.decode plaintext, l)

end Lane

end PathRace
