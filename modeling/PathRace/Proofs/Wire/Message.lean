import Mathlib.Tactic
import PathRace.Message

/-! Encoding is a bijection between the messages and the byte strings of the right shape; every other byte
string is refused as malformed (`decode_inverts_encode`). -/

namespace PathRace.Message

theorem decode_encode (m : Message) : decode m.encode = .ok m := by
  cases m with
  | hello challenge key =>
    have hc := challenge.property
    simp [encode, decode, hc]
  | authHello response challenge key =>
    have hr := response.property
    have hc := challenge.property
    have hd : List.drop 32 response.val = [] := List.drop_eq_nil_of_le (by omega)
    simp [encode, decode, List.drop_append, hr, hc, hd]
  | auth response => simp [encode, decode]
  | nominate => rfl
  | ulp data => rfl

theorem encode_of_decode {b : Bytes} {m : Message} (h : decode b = .ok m) : b = m.encode := by
  unfold decode at h
  split at h
  · cases h
  · rename_i tag body
    split at h
    · split at h
      · rename_i challenge key hc hk
        obtain rfl := Except.ok.inj h
        rw [encode, ← Octets.ofBytes?_eq_some_iff.1 hc, ← Octets.ofBytes?_eq_some_iff.1 hk,
          List.take_append_drop]
      · cases h
    · split at h
      · rename_i response challenge key hr hc hk
        obtain rfl := Except.ok.inj h
        have hd : body.drop 32 = (body.drop 16).drop 16 := by rw [List.drop_drop]
        rw [encode, ← Octets.ofBytes?_eq_some_iff.1 hr, ← Octets.ofBytes?_eq_some_iff.1 hc,
          ← Octets.ofBytes?_eq_some_iff.1 hk, hd, List.append_assoc, List.take_append_drop,
          List.take_append_drop]
      · cases h
    · split at h
      · rename_i response hr
        obtain rfl := Except.ok.inj h
        rw [encode, ← Octets.ofBytes?_eq_some_iff.1 hr]
      · cases h
    · split at h
      · rename_i hb
        obtain rfl := Except.ok.inj h
        rw [hb, encode]
      · cases h
    · obtain rfl := Except.ok.inj h
      rfl
    · cases h

theorem decode_eq_ok_iff {b : Bytes} {m : Message} : decode b = .ok m ↔ b = m.encode :=
  ⟨encode_of_decode, fun h => h ▸ decode_encode m⟩

theorem encode_injective {m m' : Message} (h : m.encode = m'.encode) : m = m' := by
  have hd := decode_encode m
  rw [h, decode_encode] at hd
  exact (Except.ok.inj hd).symm

/-! ### Malformed messages -/

/-- The accepted byte strings: a tag, followed by as many bytes as the fields of that message have. -/
def Shaped : Bytes → Prop
  | [] => False
  | tag :: body =>
    tag = 1 ∧ body.length = Limit.challengeSize + Limit.publicKeySize ∨
    tag = 2 ∧ body.length = 2 * Limit.challengeSize + Limit.publicKeySize ∨
    tag = 3 ∧ body.length = Limit.challengeSize ∨
    tag = 4 ∧ body.length = 0 ∨
    tag = 5

/-- The reason why a byte string is not the encoding of a message. -/
def flaw : Bytes → String
  | [] => "empty message"
  | tag :: _ =>
    if tag = 2 then "invalid auth-hello length"
    else if tag = 4 then "invalid nominate length"
    else if tag = 1 ∨ tag = 3 then "invalid field length"
    else "unknown message tag"

theorem shaped_encode (m : Message) : Shaped m.encode := by
  cases m with
  | hello challenge key =>
    simp [encode, Shaped, challenge.property, key.property, Limit.challengeSize, Limit.publicKeySize]
  | authHello response challenge key =>
    simp [encode, Shaped, response.property, challenge.property, key.property, Limit.challengeSize,
      Limit.publicKeySize]
  | auth response => simp [encode, Shaped, response.property, Limit.challengeSize]
  | nominate => simp [encode, Shaped]
  | ulp data => simp [encode, Shaped]

theorem encode_of_shaped {b : Bytes} (h : Shaped b) : ∃ m : Message, b = m.encode := by
  cases b with
  | nil => exact h.elim
  | cons tag body =>
    rcases h with ⟨rfl, length⟩ | ⟨rfl, length⟩ | ⟨rfl, length⟩ | ⟨rfl, length⟩ | rfl
    · refine ⟨.hello ⟨body.take 16, ?_⟩ ⟨body.drop 16, ?_⟩, by simp [encode]⟩ <;>
        simp [length, Limit.challengeSize, Limit.publicKeySize]
    · refine ⟨.authHello ⟨body.take 16, ?_⟩ ⟨(body.drop 16).take 16, ?_⟩ ⟨(body.drop 16).drop 16, ?_⟩, ?_⟩
      · simp [length, Limit.challengeSize, Limit.publicKeySize]
      · simp [length, Limit.challengeSize, Limit.publicKeySize]
      · simp [length, Limit.challengeSize, Limit.publicKeySize]
      · rw [encode, List.append_assoc, List.take_append_drop, List.take_append_drop]
    · exact ⟨.auth ⟨body, length⟩, rfl⟩
    · obtain rfl := List.length_eq_zero_iff.1 length
      exact ⟨.nominate, rfl⟩
    · exact ⟨.ulp body, rfl⟩

theorem shaped_iff {b : Bytes} : Shaped b ↔ ∃ m : Message, b = m.encode :=
  ⟨encode_of_shaped, fun ⟨m, h⟩ => h ▸ shaped_encode m⟩

theorem flaw_of_decode {b : Bytes} {fault : EngineFault} (h : decode b = .error fault) :
    fault = .malformedFrame (flaw b) := by
  unfold decode at h
  split at h
  · exact (Except.error.inj h).symm
  · rename_i tag body
    split at h
    · split at h
      · cases h
      · exact (Except.error.inj h).symm
    · split at h
      · cases h
      · exact (Except.error.inj h).symm
    · split at h
      · cases h
      · exact (Except.error.inj h).symm
    · split at h
      · cases h
      · exact (Except.error.inj h).symm
    · cases h
    · rename_i hello authHello auth nominate _
      have unknown : flaw (tag :: body) = "unknown message tag" := by
        rw [flaw, if_neg authHello, if_neg nominate, if_neg (not_or.2 ⟨hello, auth⟩)]
      rw [unknown]
      exact (Except.error.inj h).symm

/-- Decoding is the inverse of encoding: every message decodes from its encoding, and a byte string that
decodes is the encoding of the result. The byte strings that decode are the shaped ones; every other is
refused as malformed, with its flaw. -/
theorem decode_inverts_encode :
    (∀ m : Message, decode m.encode = .ok m) ∧
    ∀ b : Bytes, (∀ m, decode b = .ok m → m.encode = b) ∧
      ((∃ m, decode b = .ok m) ↔ Shaped b) ∧
      ((∀ m : Message, b ≠ m.encode) ↔ decode b = .error (.malformedFrame (flaw b))) := by
  refine ⟨decode_encode, fun b => ⟨fun m h => (encode_of_decode h).symm, ?_, ?_⟩⟩
  · simp only [decode_eq_ok_iff, shaped_iff]
  · constructor
    · intro other
      cases h : decode b with
      | ok m => exact absurd (encode_of_decode h) (other m)
      | error fault => rw [flaw_of_decode h]
    · rintro refused m rfl
      rw [decode_encode] at refused
      cases refused

/-- The shortest message, and the same with one byte more. -/
theorem decode_inverts_encode_nominate :
    decode [4] = .ok .nominate ∧ Message.nominate.encode = [4] ∧ ¬ Shaped [4, 0] ∧
      decode [4, 0] = .error (.malformedFrame "invalid nominate length") := by
  obtain ⟨inverse, exact⟩ := decode_inverts_encode
  have decoded : decode [4] = .ok .nominate := inverse .nominate
  have misshapen : ¬ Shaped [4, 0] := by simp [Shaped]
  exact ⟨decoded, (exact [4]).1 _ decoded, misshapen,
    (exact [4, 0]).2.2.1 fun m h => misshapen (h ▸ shaped_encode m)⟩

end PathRace.Message
