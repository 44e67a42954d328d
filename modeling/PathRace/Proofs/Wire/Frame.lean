import Mathlib.Tactic
import PathRace.Frame

/-! Frames that arrive in pieces. While the bytes received and those still to come together are a frame
and what follows it, the next frame is either incomplete or that frame. -/

namespace PathRace

namespace Frame

/-- One complete frame. -/
def Whole (c : Bytes) : Prop :=
  ∃ body : Bytes, body.length ≤ Limit.frame ∧ c = announce body.length ++ body

end Frame

namespace Reassembly

theorem announced_of_append {r : Reassembly} {n : Nat} {later body : Bytes}
    (hn : n ≤ Limit.frame) (hr : Limit.lengthSize ≤ r.buffer.length)
    (h : r.buffer ++ later = Frame.announce n ++ body) : r.announced = n := by
  have ht := congrArg (List.take Limit.lengthSize) h
  rw [List.take_append_of_le_length hr, List.take_left' (by simp [Frame.announce])] at ht
  have hlt : n < Nat.pow 256 Limit.lengthSize := lt_of_le_of_lt hn (by decide)
  rw [announced, ht, Frame.announce, Bytes.ofLE_le, Nat.mod_eq_of_lt hlt]

theorem next_of_append {r : Reassembly} {body later rest : Bytes}
    (fits : body.length ≤ Limit.frame)
    (h : r.buffer ++ later = Frame.announce body.length ++ (body ++ rest)) :
    r.next = (.ok none, r) ∨
      ∃ r', r.next = (.ok (some body), r') ∧ r'.buffer ++ later = rest := by
  by_cases hl : r.buffer.length < Limit.lengthSize
  · exact .inl (by simp [next, hl])
  have hr := not_lt.1 hl
  have ha := announced_of_append fits hr h
  by_cases hb : r.buffer.length < Limit.lengthSize + body.length
  · exact .inl (by simp [next, hl, ha, hb, not_lt.2 fits])
  -- all of the frame has arrived
  have hd : r.buffer.drop Limit.lengthSize ++ later = body ++ rest := by
    have hd := congrArg (List.drop Limit.lengthSize) h
    rwa [List.drop_append_of_le_length hr, List.drop_left' (by simp [Frame.announce])] at hd
  have hlen : body.length ≤ (r.buffer.drop Limit.lengthSize).length := by
    rw [List.length_drop]; omega
  have ht := congrArg (List.take body.length) hd
  rw [List.take_append_of_le_length hlen, List.take_left] at ht
  have hrest := congrArg (List.drop body.length) hd
  rw [List.drop_append_of_le_length hlen, List.drop_left] at hrest
  refine .inr ⟨⟨(r.buffer.drop Limit.lengthSize).drop body.length⟩, ?_, hrest⟩
  simp only [next, hl, ha, not_lt.2 fits, hb, if_false, ht]

theorem next_of_whole {r : Reassembly} {body rest : Bytes} (fits : body.length ≤ Limit.frame)
    (h : r.buffer = Frame.announce body.length ++ (body ++ rest)) :
    r.next = (.ok (some body), ⟨rest⟩) := by
  have four : (Frame.announce body.length).length = Limit.lengthSize := by simp [Frame.announce]
  have length : r.buffer.length = Limit.lengthSize + (body.length + rest.length) := by
    rw [h, List.length_append, List.length_append, four]
  have start : ¬ r.buffer.length < Limit.lengthSize := by omega
  have announced : r.announced = body.length :=
    announced_of_append fits (not_lt.1 start) (by rw [List.append_nil, h])
  have whole : ¬ r.buffer.length < Limit.lengthSize + body.length := by omega
  have behind : r.buffer.drop Limit.lengthSize = body ++ rest := by rw [h, List.drop_left' four]
  simp [next, start, announced, not_lt.2 fits, whole, behind]

/-- The frame is a prefix of the buffer, and the rest stays in it. -/
theorem buffer_of_next {r r' : Reassembly} {body : Bytes} (h : r.next = (.ok (some body), r')) :
    body.length ≤ Limit.frame ∧ r.buffer = Frame.announce body.length ++ (body ++ r'.buffer) := by
  unfold next at h
  split_ifs at h with start long whole
  · cases h
  · cases h
  · cases h
  · obtain ⟨hb, rfl⟩ := Prod.mk.inj h
    obtain rfl := Option.some.inj (Except.ok.inj hb)
    have size : ((r.buffer.drop Limit.lengthSize).take r.announced).length = r.announced := by
      rw [List.length_take, List.length_drop]
      omega
    have four : (r.buffer.take Limit.lengthSize).length = Limit.lengthSize := by
      rw [List.length_take]
      omega
    have head := Bytes.le_ofLE (r.buffer.take Limit.lengthSize)
    rw [four] at head
    rw [size, List.take_append_drop, Frame.announce, announced, head, List.take_append_drop]
    exact ⟨not_lt.1 long, rfl⟩

theorem next_of_nil {r : Reassembly} {later : Bytes} (h : r.buffer ++ later = []) :
    r.next = (.ok none, r) := by
  have hb : r.buffer = [] := (List.append_eq_nil_iff.1 h).1
  simp [next, hb, Limit.lengthSize]

end Reassembly

namespace Frame

variable {c d x y : Bytes}

theorem Whole.ne_nil (h : Whole c) : c ≠ [] := by
  obtain ⟨body, -, rfl⟩ := h
  intro he
  have four := congrArg List.length (List.append_eq_nil_iff.1 he).1
  simp [announce, Limit.lengthSize] at four

theorem Whole.append_inj (hc : Whole c) (hd : Whole d) (h : c ++ x = d ++ y) : c = d ∧ x = y := by
  obtain ⟨body, short, rfl⟩ := hc
  obtain ⟨body', short', rfl⟩ := hd
  rw [List.append_assoc, List.append_assoc] at h
  have long : Limit.lengthSize ≤ (announce body.length ++ (body ++ x)).length := by simp [announce]
  have mine := Reassembly.announced_of_append (r := ⟨_⟩) short long (List.append_nil _)
  have theirs := Reassembly.announced_of_append (r := ⟨_⟩) short' long ((List.append_nil _).trans h)
  have same : body.length = body'.length := mine.symm.trans theirs
  rw [same] at h
  obtain ⟨rfl, rfl⟩ := List.append_inj (List.append_cancel_left h) same
  exact ⟨rfl, rfl⟩

theorem flatten_inj {l k : List Bytes} (hl : ∀ c ∈ l, Whole c) (hk : ∀ c ∈ k, Whole c)
    (h : l.flatten = k.flatten) : l = k := by
  induction l generalizing k with
  | nil =>
    cases k with
    | nil => rfl
    | cons d k =>
      have none_left : d ++ k.flatten = [] := h.symm
      exact ((hk d (List.mem_cons_self ..)).ne_nil (List.append_eq_nil_iff.1 none_left).1).elim
  | cons c l ih =>
    have mine : Whole c := hl c (List.mem_cons_self ..)
    cases k with
    | nil =>
      have none_left : c ++ l.flatten = [] := h
      exact (mine.ne_nil (List.append_eq_nil_iff.1 none_left).1).elim
    | cons d k =>
      obtain ⟨rfl, rest⟩ := mine.append_inj (hk d (List.mem_cons_self ..)) h
      rw [ih (fun c hc => hl c (List.mem_cons_of_mem _ hc))
        (fun c hc => hk c (List.mem_cons_of_mem _ hc)) rest]

theorem next_of_whole {r : Reassembly} (h : Whole r.buffer) :
    ∃ body, r.next = (.ok (some body), Reassembly.empty) := by
  obtain ⟨body, short, hb⟩ := h
  exact ⟨body, Reassembly.next_of_whole short (by rw [hb, List.append_nil])⟩

end Frame

end PathRace
