import PathRace.Crypto.Aead
import PathRace.Crypto.Sha256
import PathRace.Crypto.Blake2s
import PathRace.Crypto.X25519
import PathRace.Lane

/-!
The key schedule, and the suite the two devices use: XChaCha20-Poly1305, X25519, HKDF over
SHA-256, and BLAKE2s for the path hash.
-/

namespace PathRace.Crypto

def label (s : String) : Bytes := s.toUTF8.toList

/-- Both devices know these keys before they meet; each sends its first message under its own. -/
def authKey (ak : AuthKey) (role : Role) : Key :=
  let key := Sha256.extract [] ak.val
  match role with
  | .initiator => Sha256.expand key (label "rendezvous v1 rida")
  | .responder => Sha256.expand key (label "rendezvous v1 rrda")

def pathKeys (ak : AuthKey) (shared : Octets 32) : PathKeys :=
  let key := Sha256.expand (Sha256.extract ak.val shared.val) (label "rendezvous v1 st")
  { initiator := Sha256.expand key (label "rendezvous v1 ridt")
    responder := Sha256.expand key (label "rendezvous v1 rrdt")
    hash := Blake2s.hash (label "rendezvous v1 rph" ++ key.val) }

def suite : Suite where
  encrypt := Aead.encrypt
  decrypt := Aead.decrypt
  authKey := authKey
  publicKey := X25519.publicKey
  agree := X25519.agree
  pathKeys := pathKeys
  length_encrypt := Aead.length_encrypt
  decrypt_encrypt := Aead.decrypt_encrypt

def keyPairText (publicKey : PublicKey) : String :=
  let bytes := Render.list (fun b : UInt8 => toString b) publicKey.val
  Render.record "EphemeralKeypair" [("public", "PublicKey(MontgomeryPoint(" ++ bytes ++ "))")] false

end PathRace.Crypto
