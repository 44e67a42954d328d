import PathRace.Lane
import PathRace.Proofs.Wire.Message

/-! Uses of a lane. A message that fits is sent as long as the lane is not exhausted (`send_of_fits`); a
message that a lane returns was opened under its own key and nonce (`receive_ok`); a nonce determines
its path, direction and counter (`Nonce.make_inj`). -/

namespace PathRace

theorem Bytes.le_inj {k n m : Nat} (hn : n < Nat.pow 256 k) (hm : m < Nat.pow 256 k)
    (h : Bytes.le k n = Bytes.le k m) : n = m := by
  have hv := congrArg Bytes.ofLE h
  rwa [Bytes.ofLE_le, Bytes.ofLE_le, Nat.mod_eq_of_lt hn, Nat.mod_eq_of_lt hm] at hv

theorem Direction.byte_inj {d e : Direction} (h : d.byte = e.byte) : d = e := by
  cases d <;> cases e <;> simp_all [Direction.byte]

theorem Direction.outbound_inj {r r' : Role} (h : outbound r = outbound r') : r = r' := by
  cases r <;> cases r' <;> simp_all [outbound]

theorem Nonce.make_inj {pid pid' : PathId} {d d' : Direction} {count count' : UInt64}
    (h : Nonce.make pid d count = Nonce.make pid' d' count') :
    pid = pid' ∧ d = d' ∧ count = count' := by
  have hv := congrArg Subtype.val h
  simp only [Nonce.make, List.append_assoc] at hv
  obtain ⟨hp, hr⟩ := List.append_inj hv (by simp)
  obtain ⟨hd, hc⟩ := List.cons.inj hr
  have hc := List.append_cancel_left hc
  have four : 2 ^ 32 = Nat.pow 256 4 := rfl
  have eight : 2 ^ 64 = Nat.pow 256 8 := rfl
  exact ⟨UInt32.toNat_inj.1 (Bytes.le_inj (four ▸ pid.toNat_lt) (four ▸ pid'.toNat_lt) hp),
    Direction.byte_inj hd,
    UInt64.toNat_inj.1 (Bytes.le_inj (eight ▸ count.toNat_lt) (eight ▸ count'.toNat_lt) hc)⟩

namespace Lane

variable {S : Suite}

theorem isExhausted_start (key : Key) (pid : PathId) (d : Direction) :
    (start key pid d).isExhausted = false := by
  simp [start, isExhausted]

theorem isExhausted_of_lt {l : Lane} (h : l.counter.toNat < 2 ^ 64 - 1) : l.isExhausted = false := by
  have other : l.counter ≠ 0xffffffffffffffff := by
    intro last
    rw [last] at h
    exact absurd h (by decide)
  simpa [isExhausted] using other

theorem counter_advance {l : Lane} (h : l.isExhausted = false) :
    l.advance.counter.toNat = l.counter.toNat + 1 := by
  have last : l.counter ≠ 0xffffffffffffffff := by simpa [isExhausted] using h
  have below : l.counter.toNat < 2 ^ 64 := l.counter.toNat_lt
  have other : l.counter.toNat ≠ 2 ^ 64 - 1 := fun he => last (UInt64.toNat_inj.1 he)
  rw [advance, UInt64.toNat_add, UInt64.toNat_one, Nat.mod_eq_of_lt (by omega)]

theorem counter_iterate {l : Lane} {n : Nat} (h : l.counter.toNat + n < 2 ^ 64) :
    (advance^[n] l).counter.toNat = l.counter.toNat + n := by
  induction n with
  | zero => rfl
  | succ n ih =>
    have before := ih (by omega)
    have fresh : (advance^[n] l).isExhausted = false := isExhausted_of_lt (by omega)
    rw [Function.iterate_succ_apply', counter_advance fresh, before, Nat.add_assoc]

/-- The frame of a message on a lane. -/
def framed (S : Suite) (m : Message) (l : Lane) : Bytes :=
  Frame.announce (m.encode.length + Limit.tagSize) ++ S.encrypt l.key l.nonce m.encode

theorem framed_ne_nil (l : Lane) (m : Message) : l.framed S m ≠ [] := by
  have hlen : (Frame.announce (m.encode.length + Limit.tagSize)).length = Limit.lengthSize := by
    simp [Frame.announce]
  intro h
  rw [framed, List.append_eq_nil_iff] at h
  rw [h.1] at hlen
  cases hlen

def Fits (m : Message) : Prop := m.encode.length + Limit.tagSize ≤ Limit.frame

theorem fits_hello (challenge : Challenge) (key : PublicKey) : Fits (.hello challenge key) := by
  simp [Fits, Message.encode, challenge.property, key.property, Limit.tagSize, Limit.frame]

theorem fits_authHello (response challenge : Challenge) (key : PublicKey) :
    Fits (.authHello response challenge key) := by
  simp [Fits, Message.encode, response.property, challenge.property, key.property, Limit.tagSize,
    Limit.frame]

theorem fits_auth (response : Challenge) : Fits (.auth response) := by
  simp [Fits, Message.encode, response.property, Limit.tagSize, Limit.frame]

theorem fits_nominate : Fits .nominate := by simp [Fits, Message.encode, Limit.tagSize, Limit.frame]

theorem send_of_fits {l : Lane} {m : Message} (hl : l.isExhausted = false) (hm : Fits m) :
    l.send S m = ⟨.ok (l.framed S m), l.advance, [l.sealing m.encode]⟩ := by
  have long : ¬ Limit.frame < m.encode.length + Limit.tagSize := not_lt.2 hm
  simp [send, hl, long, Frame.encode, S.length_encrypt, framed]

theorem send_of_exhausted {l : Lane} (hl : l.isExhausted = true) (m : Message) :
    l.send S m = ⟨.error (.crypto .counterExhaustion), l, []⟩ := by
  simp [send, hl]

theorem used_send {l : Lane} (hl : l.isExhausted = false) (m : Message) :
    (l.send S m).lane = l.advance ∧ (l.send S m).used = [l.sealing m.encode] := by
  simp [send, hl]

theorem receive_ok {l l' : Lane} {c : Bytes} {m : Message} (h : l.receive S c = (.ok m, l')) :
    l.isExhausted = false ∧ S.decrypt l.key l.nonce c = some m.encode ∧ l' = l.advance := by
  unfold receive decrypt at h
  cases hl : l.isExhausted with
  | true => simp [hl] at h
  | false =>
    cases hd : S.decrypt l.key l.nonce c with
    | none => simp [hl, hd] at h
    | some p =>
      simp only [hl, hd, Bool.false_eq_true, if_false, Prod.mk.injEq] at h
      exact ⟨rfl, by rw [Message.encode_of_decode h.1], h.2.symm⟩

/-- What was sent on a lane is received on it. -/
theorem receive_encrypt {l : Lane} (hl : l.isExhausted = false) (m : Message) :
    l.receive S (S.encrypt l.key l.nonce m.encode) = (.ok m, l.advance) := by
  simp [receive, decrypt, hl, S.decrypt_encrypt, Message.decode_encode]

end Lane

end PathRace
