import PathRace.Crypto.ChaCha
import PathRace.Crypto.Poly1305

/-!
XChaCha20-Poly1305 without associated data. `decrypt_encrypt`: what was encrypted decrypts under
the same key and nonce; a ciphertext is `tagSize` bytes longer than its plaintext.
-/

namespace PathRace.Crypto.Aead

def tagSize : Nat := 16

/-- Zeros up to a multiple of sixteen. -/
def padding (n : Nat) : Bytes := List.replicate ((16 - n % 16) % 16) 0

/-- The derived key and nonce of the inner cipher. -/
def inner (key : Octets 32) (nonce : Octets 24) : Octets 32 × Octets 12 :=
  (ChaCha.subkey key ⟨nonce.val.take 16, by simp [nonce.property]⟩,
    ⟨List.replicate 4 0 ++ nonce.val.drop 16, by simp [nonce.property]⟩)

def authenticate (key : Octets 32) (nonce : Octets 12) (ciphertext : Bytes) : Octets 16 :=
  let oneTime := Octets.fit 32 (ChaCha.block key nonce 0)
  Poly1305.tag oneTime
    (ciphertext ++ padding ciphertext.length ++ Bytes.le 8 0 ++ Bytes.le 8 ciphertext.length)

def encrypt (key : Octets 32) (nonce : Octets 24) (plaintext : Bytes) : Bytes :=
  let (k, n) := inner key nonce
  let body := ChaCha.applyStream k n 1 plaintext
  body ++ (authenticate k n body).val

def decrypt (key : Octets 32) (nonce : Octets 24) (ciphertext : Bytes) : Option Bytes :=
  if ciphertext.length < tagSize then none
  else
    let (k, n) := inner key nonce
    let body := ciphertext.take (ciphertext.length - tagSize)
    if (authenticate k n body).val = ciphertext.drop (ciphertext.length - tagSize) then
      some (ChaCha.applyStream k n 1 body)
    else none

@[simp] theorem length_encrypt (key : Octets 32) (nonce : Octets 24) (plaintext : Bytes) :
    (encrypt key nonce plaintext).length = plaintext.length + tagSize := by
  have h : ∀ t : Octets 16, t.val.length = tagSize := fun t => t.property
  rw [encrypt, List.length_append, ChaCha.length_applyStream, h]

theorem decrypt_encrypt (key : Octets 32) (nonce : Octets 24) (plaintext : Bytes) :
    decrypt key nonce (encrypt key nonce plaintext) = some plaintext := by
  have hl : (encrypt key nonce plaintext).length - tagSize
      = (ChaCha.applyStream (inner key nonce).1 (inner key nonce).2 1 plaintext).length := by simp
  have hs : ¬ (encrypt key nonce plaintext).length < tagSize := by simp
  rw [decrypt, if_neg hs, hl]
  simp only [encrypt, List.take_left, List.drop_left, if_true, ChaCha.applyStream_applyStream]

end PathRace.Crypto.Aead
