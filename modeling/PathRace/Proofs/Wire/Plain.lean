import PathRace.Proofs.Wire.Lane

/-! A suite for examples and witnesses. A ciphertext is the plaintext with a tag made from key and
nonce: it hides nothing, and what opens under a key and nonce was sealed under them. -/

namespace PathRace.Suite

def plainTag (k : Key) (n : Nonce) : Bytes :=
  List.zipWith (· ^^^ ·) (k.val.take 16) (n.val.take 8 ++ n.val.drop 16)

theorem length_plainTag (k : Key) (n : Nonce) : (plainTag k n).length = Limit.tagSize := by
  have hk := k.property
  have hn := n.property
  simp [plainTag, hk, hn, Limit.tagSize]

theorem zipWith_xor_inj {k a b : Bytes} (ha : a.length = k.length) (hb : b.length = k.length)
    (h : List.zipWith (· ^^^ ·) k a = List.zipWith (· ^^^ ·) k b) : a = b := by
  refine List.ext_getElem (ha.trans hb.symm) fun i hi hj => ?_
  have same := congrArg (·[i]?) h
  simp only [List.getElem?_zipWith, List.getElem?_eq_getElem hi, List.getElem?_eq_getElem hj,
    List.getElem?_eq_getElem (ha ▸ hi : i < k.length), Option.some.injEq] at same
  exact (UInt8.xor_right_inj _).1 same

theorem plainTag_inj {k : Key} {pid : PathId} {d : Direction} {i j : UInt64}
    (h : plainTag k (Nonce.make pid d i) = plainTag k (Nonce.make pid d j)) : i = j := by
  have hk := k.property
  have size (count : UInt64) : ((Nonce.make pid d count).val.take 8 ++
      (Nonce.make pid d count).val.drop 16).length = (k.val.take 16).length := by
    have hn := (Nonce.make pid d count).property
    simp [hk, hn]
  have parts := zipWith_xor_inj (size i) (size j) h
  have count (count : UInt64) : (Nonce.make pid d count).val.drop 16 = Bytes.le 8 count.toNat := by
    rw [Nonce.make, List.drop_left' (by simp)]
  have front (count : UInt64) : ((Nonce.make pid d count).val.take 8).length = 8 := by
    have hn := (Nonce.make pid d count).property
    simp [hn]
  have tail := (List.append_inj parts ((front i).trans (front j).symm)).2
  rw [count, count] at tail
  have eight : 2 ^ 64 = Nat.pow 256 8 := rfl
  exact UInt64.toNat_inj.1 (Bytes.le_inj (eight ▸ i.toNat_lt) (eight ▸ j.toNat_lt) tail)

def plainAgree (a b : Octets 32) : Octets 32 :=
  ⟨List.zipWith (· ^^^ ·) a.val b.val, by simp [a.property, b.property]⟩

def plain : Suite where
  encrypt k n p := p ++ plainTag k n
  decrypt k n c :=
    let size := c.length - Limit.tagSize
    if c.drop size = plainTag k n then some (c.take size) else none
  authKey ak role :=
    match role with
    | .initiator => Octets.fit 32 (1 :: ak.val)
    | .responder => Octets.fit 32 (2 :: ak.val)
  publicKey secret := secret
  agree a b := some (plainAgree a b)
  pathKeys _ shared := ⟨Octets.fit 32 (3 :: shared.val), Octets.fit 32 (4 :: shared.val), shared⟩
  length_encrypt k n p := by simp [length_plainTag]
  decrypt_encrypt k n p := by simp [length_plainTag]

theorem plain_symm (a b : Octets 32) :
    plain.agree a (plain.publicKey b) = plain.agree b (plain.publicKey a) := by
  have h : List.zipWith (· ^^^ ·) a.val b.val = List.zipWith (· ^^^ ·) b.val a.val :=
    List.zipWith_comm_of_comm fun x y => UInt8.xor_comm x y
  simp only [plain, plainAgree, h]

end PathRace.Suite
