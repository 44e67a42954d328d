import PathRace.Proofs.Wire.Frame

/-! Frames out of a stream of bytes cut anywhere. The bytes taken and the bytes held are the bytes that
have arrived (`conserved_run`), and a byte string splits into whole frames and an incomplete one in only
one way (`rows_unique`), so neither the cuts nor the times of the looks matter. -/

namespace PathRace

namespace Frame

/-- The concatenated frames of several bodies. -/
def encodeAll : List Bytes → Except EngineFault Bytes
  | [] => .ok []
  | body :: rest =>
    match encode body with
    | .error fault => .error fault
    | .ok frame => (encodeAll rest).map (frame ++ ·)

theorem encode_eq_ok_iff {body frame : Bytes} :
    encode body = .ok frame ↔ body.length ≤ Limit.frame ∧ frame = announce body.length ++ body := by
  unfold encode
  split_ifs with long
  · simp [long]
  · simp [not_lt.1 long, eq_comm]

theorem encodeAll_cons {body : Bytes} {rest : List Bytes} {stream : Bytes} :
    encodeAll (body :: rest) = .ok stream ↔ body.length ≤ Limit.frame ∧
      ∃ more, encodeAll rest = .ok more ∧ stream = announce body.length ++ (body ++ more) := by
  rw [encodeAll]
  by_cases fits : body.length ≤ Limit.frame
  · rw [encode_eq_ok_iff.2 ⟨fits, rfl⟩]
    cases encodeAll rest with
    | error fault => simp [Except.map]
    | ok more => simp [Except.map, fits, eq_comm]
  · simp [encode, not_le.1 fits, fits]

theorem encodeAll_accepts {bodies : List Bytes} :
    (∃ stream, encodeAll bodies = .ok stream) ↔ ∀ body ∈ bodies, body.length ≤ Limit.frame := by
  induction bodies with
  | nil => simp [encodeAll]
  | cons body rest ih =>
    rw [List.forall_mem_cons, ← ih]
    simp only [encodeAll_cons]
    constructor
    · rintro ⟨-, fits, more, h, -⟩
      exact ⟨fits, more, h⟩
    · rintro ⟨fits, more, h⟩
      exact ⟨_, fits, more, h, rfl⟩

end Frame

namespace Reassembly

/-! ### A look -/

/-- The length prefix or the body it announces is incomplete. -/
def Incomplete (r : Reassembly) : Prop :=
  r.buffer.length < Limit.lengthSize ∨
    r.announced ≤ Limit.frame ∧ r.buffer.length < Limit.lengthSize + r.announced

def Oversized (r : Reassembly) : Prop :=
  Limit.lengthSize ≤ r.buffer.length ∧ Limit.frame < r.announced

/-- No frame can be taken. -/
def Stuck (r : Reassembly) : Prop := ∀ body, r.next.1 ≠ .ok (some body)

/-- The possible results of a look. -/
inductive Comes (r : Reassembly) : Except EngineFault (Option Bytes) × Reassembly → Prop
  | nothing (incomplete : r.Incomplete) (fits : ¬ r.Oversized) : Comes r (.ok none, r)
  | refused (oversized : r.Oversized) (incomplete : ¬ r.Incomplete) :
      Comes r (.error (.frameTooLarge r.announced Limit.frame), r)
  | taken {body : Bytes} {r' : Reassembly} (complete : ¬ r.Incomplete) (fits : ¬ r.Oversized)
      (short : body.length ≤ Limit.frame)
      (front : r.buffer = Frame.announce body.length ++ (body ++ r'.buffer)) :
      Comes r (.ok (some body), r')

theorem comes_next (r : Reassembly) : r.Comes r.next := by
  by_cases few : r.buffer.length < Limit.lengthSize
  · have nothing : r.next = (.ok none, r) := by simp [next, few]
    rw [nothing]
    exact .nothing (.inl few) fun oversized => absurd few (not_lt.2 oversized.1)
  by_cases long : Limit.frame < r.announced
  · have refused : r.next = (.error (.frameTooLarge r.announced Limit.frame), r) := by
      simp [next, few, long]
    rw [refused]
    exact .refused ⟨not_lt.1 few, long⟩ (by simp [Incomplete, few, long])
  have fits : ¬ r.Oversized := fun oversized => long oversized.2
  by_cases part : r.buffer.length < Limit.lengthSize + r.announced
  · have nothing : r.next = (.ok none, r) := by simp [next, few, long, part]
    rw [nothing]
    exact .nothing (.inr ⟨not_lt.1 long, part⟩) fits
  · obtain ⟨body, r', taken⟩ : ∃ body r', r.next = (.ok (some body), r') :=
      ⟨_, _, by simp only [next, few, long, part, if_false]; rfl⟩
    rw [taken]
    obtain ⟨short, front⟩ := buffer_of_next taken
    exact .taken (by simp [Incomplete, few, part]) fits short front

variable {r r' : Reassembly}

theorem next_eq_none_iff : r.next.1 = .ok none ↔ r.Incomplete := by
  have comes := r.comes_next
  generalize r.next = next at comes
  cases comes <;> simp_all

theorem next_eq_error_iff {fault : EngineFault} :
    r.next.1 = .error fault ↔ r.Oversized ∧ fault = .frameTooLarge r.announced Limit.frame := by
  have comes := r.comes_next
  generalize r.next = next at comes
  cases comes <;> simp_all [eq_comm]

theorem Stuck.next (h : r.Stuck) : r.next.2 = r := by
  have comes := r.comes_next
  unfold Stuck at h
  generalize r.next = next at comes h
  cases comes with
  | nothing | refused => rfl
  | @taken body => exact absurd rfl (h body)

theorem Incomplete.stuck (h : r.Incomplete) : r.Stuck := by
  intro body taken
  rw [next_eq_none_iff.2 h] at taken
  cases taken

theorem Oversized.stuck (h : r.Oversized) : r.Stuck := by
  intro body taken
  rw [next_eq_error_iff.2 ⟨h, rfl⟩] at taken
  cases taken

/-- Taking a frame shortens the buffer by a length prefix at least. -/
theorem length_next {body : Bytes} (taken : r.next.1 = .ok (some body)) :
    r.next.2.buffer.length + Limit.lengthSize ≤ r.buffer.length := by
  obtain ⟨-, front⟩ := buffer_of_next (Prod.ext taken rfl : r.next = (.ok (some body), r.next.2))
  have four : (Frame.announce body.length).length = Limit.lengthSize := by simp [Frame.announce]
  rw [front, List.length_append, List.length_append, four]
  omega

theorem Oversized.push (h : r.Oversized) (chunk : Bytes) :
    (r.push chunk).Oversized ∧ (r.push chunk).announced = r.announced := by
  have same : (r.push chunk).announced = r.announced := by
    rw [announced, Reassembly.push, List.take_append_of_le_length h.1, ← announced]
  refine ⟨⟨?_, by rw [same]; exact h.2⟩, same⟩
  rw [Reassembly.push, List.length_append]
  exact Nat.le_add_right_of_le h.1

/-- There is only one way to split bytes into frames with an incomplete rest. -/
theorem rows_unique {bodies bodies' : List Bytes} {stream stream' : Bytes}
    (row : Frame.encodeAll bodies = .ok stream) (row' : Frame.encodeAll bodies' = .ok stream')
    (same : stream ++ r.buffer = stream' ++ r'.buffer) (stuck : r.Stuck) (stuck' : r'.Stuck) :
    bodies = bodies' ∧ r = r' := by
  -- a frame at the front could be taken
  have front {s : Reassembly} {body more : Bytes} (stuck : s.Stuck) (fits : body.length ≤ Limit.frame)
      (h : s.buffer = Frame.announce body.length ++ (body ++ more)) : False :=
    stuck body (congrArg Prod.fst (next_of_whole fits h))
  induction bodies generalizing bodies' stream stream' with
  | nil =>
    obtain rfl : [] = stream := by simpa [Frame.encodeAll] using row
    cases bodies' with
    | nil =>
      obtain rfl : [] = stream' := by simpa [Frame.encodeAll] using row'
      exact ⟨rfl, congrArg Reassembly.mk same⟩
    | cons body' rest' =>
      obtain ⟨fits, more, -, rfl⟩ := Frame.encodeAll_cons.1 row'
      exact (front stuck fits (by simpa using same)).elim
  | cons body rest ih =>
    obtain ⟨fits, more, rest_row, rfl⟩ := Frame.encodeAll_cons.1 row
    cases bodies' with
    | nil =>
      obtain rfl : [] = stream' := by simpa [Frame.encodeAll] using row'
      exact (front stuck' fits (by simpa using same.symm)).elim
    | cons body' rest' =>
      obtain ⟨fits', more', rest_row', rfl⟩ := Frame.encodeAll_cons.1 row'
      have whole : Frame.Whole (Frame.announce body.length ++ body) := ⟨body, fits, rfl⟩
      have whole' : Frame.Whole (Frame.announce body'.length ++ body') := ⟨body', fits', rfl⟩
      obtain ⟨first, others⟩ := whole.append_inj whole' (x := more ++ r.buffer)
        (y := more' ++ r'.buffer) (by simpa using same)
      obtain rfl : body = body' := List.append_inj_right first (by simp [Frame.announce])
      obtain ⟨rfl, rfl⟩ := ih rest_row rest_row' others
      exact ⟨rfl, rfl⟩

/-! ### Runs -/

/-- A chunk arrives, or the next frame is looked for. -/
inductive Use
  | push (chunk : Bytes)
  | next

/-- The results of the looks, and the buffer at the end. -/
def run : List Use → Reassembly → List (Except EngineFault (Option Bytes)) × Reassembly
  | [], r => ([], r)
  | .push chunk :: us, r => run us (r.push chunk)
  | .next :: us, r =>
    let (answer, r) := r.next
    let (answers, r) := run us r
    (answer :: answers, r)

def pushed (us : List Use) : Bytes :=
  us.flatMap fun
    | .push chunk => chunk
    | .next => []

def frames (answers : List (Except EngineFault (Option Bytes))) : List Bytes :=
  answers.filterMap fun
    | .ok body? => body?
    | .error _ => none

@[simp] theorem run_push (chunk : Bytes) (us : List Use) (r : Reassembly) :
    run (.push chunk :: us) r = run us (r.push chunk) := rfl

@[simp] theorem run_next (us : List Use) (r : Reassembly) :
    run (.next :: us) r = (r.next.1 :: (run us r.next.2).1, (run us r.next.2).2) := rfl

theorem run_append (a b : List Use) (r : Reassembly) :
    run (a ++ b) r = ((run a r).1 ++ (run b (run a r).2).1, (run b (run a r).2).2) := by
  induction a generalizing r with
  | nil => rfl
  | cons u a ih =>
    cases u with
    | push chunk => exact ih _
    | next => simp only [List.cons_append, run_next, ih]

theorem pushed_append (a b : List Use) : pushed (a ++ b) = pushed a ++ pushed b :=
  List.flatMap_append

theorem pushed_looks (n : Nat) : pushed (List.replicate n .next) = [] := by
  simp [pushed]

/-- The frames taken and the bytes left in the buffer make up the bytes that have arrived. -/
theorem conserved_run (us : List Use) (r : Reassembly) :
    ∃ stream, Frame.encodeAll (frames (run us r).1) = .ok stream ∧
      stream ++ (run us r).2.buffer = r.buffer ++ pushed us := by
  induction us generalizing r with
  | nil => exact ⟨[], rfl, by simp [run, pushed]⟩
  | cons u us ih =>
    cases u with
    | push chunk =>
      obtain ⟨stream, row, all⟩ := ih (r.push chunk)
      exact ⟨stream, row, by simpa [Reassembly.push, pushed] using all⟩
    | next =>
      have arrived : pushed (.next :: us) = pushed us := rfl
      have comes := r.comes_next
      simp only [run_next, arrived]
      generalize r.next = next at comes
      cases comes with
      | nothing | refused => exact ih r
      | @taken body r' complete fits short front =>
        obtain ⟨stream, row, all⟩ := ih r'
        refine ⟨_, Frame.encodeAll_cons.2 ⟨short, stream, row, rfl⟩, ?_⟩
        simp only [front, List.append_assoc, all]

theorem Stuck.run_looks (h : r.Stuck) (n : Nat) : (run (List.replicate n .next) r).2 = r := by
  induction n with
  | zero => rfl
  | succ n ih => rw [List.replicate_succ, run_next, h.next, ih]

/-- After enough looks no further frame can be taken. -/
theorem stuck_run {n : Nat} (enough : r.buffer.length / Limit.lengthSize ≤ n) :
    (run (List.replicate n .next) r).2.Stuck := by
  simp only [Limit.lengthSize] at enough
  induction n generalizing r with
  | zero =>
    have few : r.buffer.length < Limit.lengthSize := by
      simp only [Limit.lengthSize]
      omega
    exact Incomplete.stuck (r := r) (.inl few)
  | succ n ih =>
    by_cases stuck : r.Stuck
    · rw [stuck.run_looks]
      exact stuck
    · obtain ⟨body, taken⟩ : ∃ body, r.next.1 = .ok (some body) := by simpa [Stuck] using stuck
      have shorter := length_next taken
      simp only [Limit.lengthSize] at shorter
      rw [List.replicate_succ, run_next]
      exact ih (by omega)

/-- A length above the limit is refused at every look, and later bytes are kept behind it. -/
theorem Oversized.run (h : r.Oversized) (us : List Use) :
    (∀ answer ∈ (Reassembly.run us r).1, answer = .error (.frameTooLarge r.announced Limit.frame)) ∧
      (Reassembly.run us r).2.buffer = r.buffer ++ pushed us := by
  induction us generalizing r with
  | nil => simp [Reassembly.run, pushed]
  | cons u us ih =>
    cases u with
    | push chunk =>
      obtain ⟨oversized, same⟩ := h.push chunk
      obtain ⟨refused, kept⟩ := ih oversized
      rw [same] at refused
      exact ⟨refused, by rw [run_push, kept]; simp [Reassembly.push, pushed]⟩
    | next =>
      obtain ⟨refused, kept⟩ := ih h
      have answer : r.next.1 = .error (.frameTooLarge r.announced Limit.frame) :=
        next_eq_error_iff.2 ⟨h, rfl⟩
      rw [run_next, h.stuck.next]
      exact ⟨List.forall_mem_cons.2 ⟨answer, refused⟩, kept⟩

/-- After enough looks the result is that of the whole stream at once; if the stream is a row of frames,
these have been taken. -/
theorem same_in_the_end {us : List Use} {n : Nat}
    (enough : (pushed us).length / Limit.lengthSize ≤ n) :
    let looked := run (us ++ List.replicate n .next) empty
    let whole := run (.push (pushed us) :: List.replicate n .next) empty
    frames looked.1 = frames whole.1 ∧ looked.2 = whole.2 ∧
      ∀ bodies, Frame.encodeAll bodies = .ok (pushed us) →
        frames looked.1 = bodies ∧ looked.2 = empty := by
  intro looked whole
  obtain ⟨stream, -, arrived⟩ := conserved_run us empty
  have size : (run us empty).2.buffer.length ≤ (pushed us).length := by
    have together : stream.length + (run us empty).2.buffer.length = (pushed us).length := by
      simpa [empty] using congrArg List.length arrived
    omega
  have stuck : looked.2.Stuck := by
    simp only [looked, run_append]
    exact stuck_run ((Nat.div_le_div_right size).trans enough)
  have stuck' : whole.2.Stuck := stuck_run enough
  obtain ⟨cut, cut_row, cut_all⟩ := conserved_run (us ++ List.replicate n .next) empty
  obtain ⟨one, one_row, one_all⟩ := conserved_run (.push (pushed us) :: List.replicate n .next) empty
  have total : pushed (us ++ List.replicate n .next) = pushed us := by
    rw [pushed_append, pushed_looks, List.append_nil]
  have total' : pushed (.push (pushed us) :: List.replicate n .next) = pushed us :=
    (congrArg (pushed us ++ ·) (pushed_looks n)).trans (List.append_nil _)
  rw [total] at cut_all
  rw [total'] at one_all
  obtain ⟨frames_same, rest_same⟩ :=
    rows_unique cut_row one_row (cut_all.trans one_all.symm) stuck stuck'
  refine ⟨frames_same, rest_same, fun bodies encoded => ?_⟩
  have nothing : empty.Stuck := Incomplete.stuck (.inl (by decide))
  exact rows_unique cut_row encoded (cut_all.trans (List.append_nil _).symm) stuck nothing

/-- For any cut of a stream and any looks in between: the frames taken and the bytes left make up the
bytes that have arrived. After enough looks the frames taken are those of the whole stream at once, and
all of them if the stream is a row of frames. A look gives nothing if and only if the next frame is
incomplete, and is refused if and only if a length above the limit is announced; neither changes the
buffer, and a refusal is final. -/
theorem same_frames_however_cut (us : List Use) :
    let r := (run us empty).2
    (∃ stream, Frame.encodeAll (frames (run us empty).1) = .ok stream ∧
      stream ++ r.buffer = pushed us) ∧
    (∀ n, (pushed us).length / Limit.lengthSize ≤ n →
      let looked := run (us ++ List.replicate n .next) empty
      let whole := run (.push (pushed us) :: List.replicate n .next) empty
      frames looked.1 = frames whole.1 ∧ looked.2 = whole.2 ∧
        ∀ bodies, Frame.encodeAll bodies = .ok (pushed us) →
          frames looked.1 = bodies ∧ looked.2 = empty) ∧
    (r.next.1 = .ok none ↔ r.Incomplete) ∧
    (∀ fault, r.next.1 = .error fault ↔
      r.Oversized ∧ fault = .frameTooLarge r.announced Limit.frame) ∧
    (r.Stuck → r.next.2 = r) ∧
    (r.Oversized → ∀ more,
      (∀ answer ∈ (run more r).1, answer = .error (.frameTooLarge r.announced Limit.frame)) ∧
      (run more r).2.buffer = r.buffer ++ pushed more) ∧
    (∀ body, (∃ frame, Frame.encode body = .ok frame) ↔ body.length ≤ Limit.frame) ∧
    ∀ bodies, (∃ stream, Frame.encodeAll bodies = .ok stream) ↔
      ∀ body ∈ bodies, body.length ≤ Limit.frame := by
  intro r
  obtain ⟨stream, row, all⟩ := conserved_run us empty
  have arrived : stream ++ r.buffer = pushed us := all
  exact ⟨⟨stream, row, arrived⟩, fun n enough => same_in_the_end enough, next_eq_none_iff,
    fun fault => next_eq_error_iff, Stuck.next, Oversized.run,
    fun body => by simp [Frame.encode_eq_ok_iff], fun bodies => Frame.encodeAll_accepts⟩

/-- Two frames, the second empty, with a cut in the first length prefix; and a length one above the
limit, cut before its last byte. -/
theorem same_frames_however_cut_plain :
    let us : List Use := [.push [2, 0, 0], .next, .push [0, 7, 8, 0, 0, 0, 0]]
    frames (run (us ++ [.next, .next]) empty).1 = [[7, 8], []] ∧
    let r := (run [.push [1, 0, 0], .next, .push [4, 9]] empty).2
    r.Oversized ∧ r.Stuck ∧ r.next.2 = r ∧ (run [.push [5], .next] r).1 ≠ [] ∧
      (∀ answer ∈ (run [.push [5], .next] r).1, answer = .error (.frameTooLarge 67108865 67108864)) ∧
      (run [.push [5], .next] r).2.buffer = [1, 0, 0, 4, 9, 5] := by
  intro us
  obtain ⟨-, all, -⟩ := same_frames_however_cut us
  obtain ⟨-, -, -, -, same, refused, -⟩ :=
    same_frames_however_cut [.push [1, 0, 0], .next, .push [4, 9]]
  refine ⟨((all 2 (by decide)).2.2 [[7, 8], []] (by rfl)).1, ?_⟩
  have oversized : (run [.push [1, 0, 0], .next, .push [4, 9]] empty).2.Oversized := by
    unfold Oversized
    decide
  obtain ⟨answers, kept⟩ := refused oversized [.push [5], .next]
  exact ⟨oversized, oversized.stuck, same oversized.stuck, by simp, answers, kept⟩

end Reassembly

end PathRace
