import PathRace.Proofs.Exchange.Turn
import PathRace.Proofs.Wire.Frame

/-! Payloads in flight from one device to the other. The bytes that have been sealed and not yet taken
are a row of frames that starts with the number the receiver expects next (`Passage`), so the next
complete frame opens and is the next payload. -/

namespace PathRace

namespace Lane

variable {S : Suite}

/-- The frames of payloads on a lane, in order. -/
def wire (S : Suite) : Lane → List Bytes → Bytes
  | _, [] => []
  | l, data :: rest => l.framed S (.ulp data) ++ wire S l.advance rest

theorem wire_append (l : Lane) (payloads : List Bytes) (data : Bytes) :
    l.wire S (payloads ++ [data]) =
      l.wire S payloads ++ (advance^[payloads.length] l).framed S (.ulp data) := by
  induction payloads generalizing l with
  | nil => simp [wire]
  | cons first rest ih => simp [wire, ih]

theorem fits_ulp {data : Bytes} (h : data.length ≤ Limit.frame - 17) : Fits (.ulp data) := by
  have frame : Limit.frame = Limit.frame - 17 + 17 := by decide
  simp only [Fits, Message.encode, List.length_cons, Limit.tagSize]
  omega

end Lane

/-- The payloads that one device has sent and the other has got, with the bytes between them. The
handshake has used at most two counter values of a lane. -/
structure Passage (S : Suite) (rx tx : Lane) (way : Bytes) (got sent : List Bytes) : Prop where
  left : ∃ rest, sent = got ++ rest ∧ way = rx.wire S rest ∧ tx = Lane.advance^[rest.length] rx ∧
    ∀ data ∈ rest, Lane.Fits (.ulp data)
  count : rx.counter.toNat ≤ 2 + got.length

namespace Passage

variable {S : Suite} {rx tx : Lane} {way : Bytes} {got sent : List Bytes}

theorem start {l : Lane} (count : l.counter.toNat ≤ 2) : Passage S l l [] [] [] where
  left := ⟨[], rfl, rfl, rfl, by simp⟩
  count := count

theorem within (h : Passage S rx tx way got sent) : got <+: sent := by
  obtain ⟨rest, rfl, -⟩ := h.left
  exact List.prefix_append got rest

theorem behind (h : Passage S rx tx way got sent) (more : way ≠ []) : got <+: sent.dropLast := by
  obtain ⟨rest, rfl, rfl, -⟩ := h.left
  have left : rest ≠ [] := by
    rintro rfl
    exact more rfl
  rw [List.dropLast_append_of_ne_nil left]
  exact List.prefix_append got rest.dropLast

theorem fresh (h : Passage S rx tx way got sent) (bound : sent.length < 2 ^ 64 - 3) :
    tx.isExhausted = false := by
  obtain ⟨rest, rfl, -, rfl, -⟩ := h.left
  have count := h.count
  rw [List.length_append] at bound
  apply Lane.isExhausted_of_lt
  rw [Lane.counter_iterate (by omega)]
  omega

theorem send (h : Passage S rx tx way got sent) {data : Bytes} (fits : Lane.Fits (.ulp data)) :
    Passage S rx tx.advance (way ++ tx.framed S (.ulp data)) got (sent ++ [data]) where
  left := by
    obtain ⟨rest, rfl, rfl, rfl, all⟩ := h.left
    refine ⟨rest ++ [data], by simp, (Lane.wire_append rx rest data).symm, ?_, fun d hd => ?_⟩
    · rw [List.length_append, List.length_singleton, Function.iterate_succ_apply']
    · rcases List.mem_append.1 hd with hd | hd
      · exact all d hd
      · rw [List.mem_singleton.1 hd]; exact fits
  count := h.count

/-- Whatever part of the bytes has arrived, the next frame is that of the next payload. -/
theorem next {later : Bytes} {r : Reassembly} (h : Passage S rx tx (r.buffer ++ later) got sent)
    (bound : sent.length < 2 ^ 64 - 3) :
    (r.next = (.ok none, r) ∧ (later = [] → got = sent)) ∨
    ∃ c data r', r.next = (.ok (some c), r') ∧ rx.receive S c = (.ok (.ulp data), rx.advance) ∧
      Passage S rx.advance tx (r'.buffer ++ later) (got ++ [data]) sent := by
  obtain ⟨rest, rfl, way, rfl, fits⟩ := h.left
  have count := h.count
  cases rest with
  | nil => exact .inl ⟨Reassembly.next_of_nil way, fun _ => (List.append_nil got).symm⟩
  | cons data rest =>
    rw [List.length_append, List.length_cons] at bound
    have fresh : rx.isExhausted = false := Lane.isExhausted_of_lt (by omega)
    have length : (S.encrypt rx.key rx.nonce (Message.ulp data).encode).length =
        (Message.ulp data).encode.length + Limit.tagSize := S.length_encrypt ..
    have short : (S.encrypt rx.key rx.nonce (Message.ulp data).encode).length ≤ Limit.frame :=
      length ▸ fits data List.mem_cons_self
    have row : r.buffer ++ later =
        Frame.announce (S.encrypt rx.key rx.nonce (Message.ulp data).encode).length ++
          (S.encrypt rx.key rx.nonce (Message.ulp data).encode ++ rx.advance.wire S rest) := by
      rw [way, length]
      simp [Lane.wire, Lane.framed]
    rcases Reassembly.next_of_append short row with none | ⟨r', some, rest'⟩
    · refine .inl ⟨none, fun nothing => ?_⟩
      -- with nothing to come the frame would be complete
      rw [nothing, List.append_nil] at row
      rw [Reassembly.next_of_whole short row] at none
      cases none
    · refine .inr ⟨_, data, r', some, Lane.receive_encrypt fresh _, ⟨rest, ?_, rest', ?_, ?_⟩, ?_⟩
      · simp
      · rfl
      · exact fun d hd => fits d (List.mem_cons_of_mem _ hd)
      · rw [Lane.counter_advance fresh, List.length_append, List.length_singleton]
        omega

end Passage

namespace Exchange

variable {S : Suite} {x : Exchange S} {pid : PathId} {inbox : Reassembly} {t : Transport}

/-- Path `pid` is nominated and has not failed. -/
structure Carries (x : Exchange S) (pid : PathId) (inbox : Reassembly) (t : Transport) : Prop where
  nominated : x.nominated = some pid
  strand : x.strand? pid = some ⟨inbox, .nominated t⟩

theorem Carries.put (h : x.Carries pid inbox t) (inbox' : Reassembly) (t' : Transport)
    (used : List Sealing) :
    ((x.record used).put pid ⟨inbox', .nominated t'⟩).Carries pid inbox' t' where
  nominated := h.nominated
  strand := by
    have before : (x.record used).strand? pid = some ⟨inbox, .nominated t⟩ := h.strand
    rw [strand?_put before, if_pos rfl]

theorem Carries.createFrame (h : x.Carries pid inbox t) (fresh : t.tx.isExhausted = false)
    {data : Bytes} (fits : Lane.Fits (.ulp data)) :
    ∃ x', Engine.createFrame data x = (.ok (Outcome.frame (t.tx.framed S (.ulp data))), x') ∧
      x'.Carries pid inbox { t with tx := t.tx.advance } := by
  refine ⟨_, ?_, h.put inbox { t with tx := t.tx.advance } [t.tx.sealing (Message.ulp data).encode]⟩
  simp [Engine.createFrame, Exchange.createFrame, h.nominated, h.strand, Lane.send_of_fits fresh fits,
    Except.map, Exchange.put, Exchange.record]

theorem Carries.addChunk (h : x.Carries pid inbox t) (chunk : Bytes) :
    ∃ x', Engine.addChunk pid chunk x = (.ok (), x') ∧ x'.Carries pid (inbox.push chunk) t := by
  refine ⟨_, ?_, h.put (inbox.push chunk) t []⟩
  simp [Engine.addChunk, Exchange.addChunk, h.strand]

theorem Carries.processFrame_none (h : x.Carries pid inbox t) (next : inbox.next = (.ok none, inbox))
    (now : Nat) (s : Entropy) : Engine.processFrame pid now x s = (.ok none, x, s) := by
  simp [Engine.processFrame, Exchange.processFrame, h.strand, next]

theorem Carries.processFrame_some (h : x.Carries pid inbox t) {c data : Bytes} {inbox' : Reassembly}
    (next : inbox.next = (.ok (some c), inbox')) {rx : Lane}
    (opens : t.rx.receive S c = (.ok (.ulp data), rx)) (now : Nat) (s : Entropy) :
    ∃ x', Engine.processFrame pid now x s = (.ok (some (Outcome.data data)), x', s) ∧
      x'.Carries pid inbox' { t with rx } := by
  refine ⟨_, ?_, h.put inbox' { t with rx } []⟩
  simp [Engine.processFrame, Exchange.processFrame, h.strand, next, Device.step, Device.onUlp, opens,
    Exchange.put, h.nominated]

end Exchange

end PathRace
