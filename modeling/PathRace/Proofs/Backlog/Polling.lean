import Mathlib.Tactic
import PathRace.Gate

/-! When a write that waits for its backlog returns. It samples the count at the ticks of its own poll
interval, so a drop of the count between two ticks goes unnoticed; a close is seen at once.
`settles_as_specified`: the answer is the one that the specification reads off the schedule. -/

namespace PathRace

namespace Gate

/-- What happens between two turns of the writers: perhaps a tick of the clock, then any other events. -/
structure Beat where
  ticks : Bool
  events : List Event
  timeless : .tick ∉ events := by decide

namespace Beat

def all (b : Beat) : List Event := if b.ticks then .tick :: b.events else b.events

def of : Event → Beat
  | .enqueue n => ⟨false, [.enqueue n], by simp⟩
  | .drain n => ⟨false, [.drain n], by simp⟩
  | .settle => ⟨false, [.settle], by simp⟩
  | .close => ⟨false, [.close], by simp⟩
  | .tick => ⟨true, [], by simp⟩

theorem all_of (e : Event) : (of e).all = [e] := by cases e <;> rfl

end Beat

def happen (g : Gate) (events : List Event) : Gate := events.foldl apply g

/-- All events of a beat are applied, and then every writer that is due looks once. -/
def beat (g : Gate) (b : Beat) : Gate :=
  { g.happen b.all with waiters := (g.happen b.all).waiters.map (g.happen b.all).look }

def beats (g : Gate) (bs : List Beat) : Gate := bs.foldl beat g

theorem run_eq_beats (g : Gate) (events : List Event) : g.run events = g.beats (events.map .of) := by
  induction events generalizing g with
  | nil => rfl
  | cons e events ih =>
    have first : g.step e = g.beat (.of e) := by
      unfold beat
      rw [Beat.all_of]
      rfl
    exact (congrArg (run · events) first).trans (ih (g.beat (.of e)))

/-! ### The schedule and the verdict -/

/-- What a writer sees at its turn. -/
structure Moment where
  /-- Whether the clock has advanced since the last turn. -/
  fresh : Bool
  time : Nat
  count : UInt64
  closed : Bool

namespace Moment

/-- Whether the moment is a tick of the interval that began at `t₀`. -/
def isTick (poll t₀ : Nat) (m : Moment) : Bool :=
  m.fresh && decide (t₀ < m.time) && (m.time - t₀) % poll == 0

/-- Whether a writer that was stalled at `t₀` stops waiting at this moment. -/
def ends (marks : Watermarks) (t₀ : Nat) (m : Moment) : Bool :=
  m.closed || m.isTick marks.poll t₀ && decide (m.count ≤ marks.low)

def answer (m : Moment) : Except PathFault Unit × Nat :=
  (if m.closed then .error .closed else .ok (), m.time)

theorem isTick_iff {poll t₀ : Nat} {m : Moment} (positive : 0 < poll) :
    m.isTick poll t₀ = true ↔ m.fresh = true ∧ ∃ k, 1 ≤ k ∧ m.time = t₀ + k * poll := by
  simp only [isTick, Bool.and_eq_true, decide_eq_true_eq, beq_iff_eq, and_assoc]
  apply and_congr_right
  intro _
  constructor
  · rintro ⟨later, whole⟩
    obtain ⟨k, hk⟩ := Nat.dvd_of_mod_eq_zero whole
    refine ⟨k, Nat.one_le_iff_ne_zero.2 ?_, by rw [Nat.mul_comm] at hk; omega⟩
    rintro rfl
    omega
  · rintro ⟨k, one, time⟩
    have some_time : 0 < k * poll := Nat.mul_pos one positive
    refine ⟨by omega, ?_⟩
    rw [time, Nat.add_sub_cancel_left, Nat.mul_mod_left]

end Moment

def moment (g : Gate) (b : Beat) : Moment :=
  ⟨b.ticks, (g.beat b).now, (g.beat b).backlog.buffered, (g.beat b).closed⟩

def moments : Gate → List Beat → List Moment
  | _, [] => []
  | g, b :: bs => g.moment b :: moments (g.beat b) bs

/-- The specification: the result of a writer that arrives at `g`, with its time, if these are the turns
that follow. -/
def verdict (g : Gate) (turns : List Moment) : Option (Except PathFault Unit × Nat) :=
  if g.backlog.buffered < g.backlog.marks.high then some (.ok (), g.now)
  else (turns.find? (·.ends g.backlog.marks g.now)).map Moment.answer

/-- The result that writer `i` has been given, with its time. -/
def told (i : Nat) (g : Gate) : Option (Except PathFault Unit × Nat) :=
  match g.waiters[i]? with
  | some (.finished result time) => some (result, time)
  | _ => none

/-! ### Effect of a beat -/

variable {g : Gate} {b : Beat} {i : Nat} {stall : Stall} {t₀ : Nat}

theorem marks_apply (g : Gate) (e : Event) : (g.apply e).backlog.marks = g.backlog.marks := by
  cases e <;> rfl

theorem marks_happen (g : Gate) (events : List Event) :
    (g.happen events).backlog.marks = g.backlog.marks := by
  induction events generalizing g with
  | nil => rfl
  | cons e events ih => exact (ih (g.apply e)).trans (marks_apply g e)

theorem marks_beats (g : Gate) (bs : List Beat) : (g.beats bs).backlog.marks = g.backlog.marks := by
  induction bs generalizing g with
  | nil => rfl
  | cons b bs ih => exact (ih (g.beat b)).trans (marks_happen g b.all)

theorem now_apply {e : Event} (timeless : e ≠ .tick) (g : Gate) : (g.apply e).now = g.now := by
  cases e <;> first | rfl | contradiction

theorem now_happen {events : List Event} (timeless : .tick ∉ events) (g : Gate) :
    (g.happen events).now = g.now := by
  induction events generalizing g with
  | nil => rfl
  | cons e events ih =>
    rw [List.mem_cons, not_or] at timeless
    exact (ih timeless.2 (g.apply e)).trans (now_apply (Ne.symm timeless.1) g)

theorem now_beat (g : Gate) (b : Beat) : (g.beat b).now = if b.ticks then g.now + 1 else g.now := by
  change (g.happen b.all).now = _
  unfold Beat.all
  split_ifs
  · exact now_happen b.timeless (g.apply .tick)
  · exact now_happen b.timeless g

theorem waiter_apply (held : i < g.waiters.length) (e : Event) :
    (g.apply e).waiters[i]? = g.waiters[i]? := by
  cases e with
  | settle => exact List.getElem?_append_left held
  | enqueue | drain | close | tick => rfl

theorem waiter_happen {w : Waiter} (h : g.waiters[i]? = some w) (events : List Event) :
    (g.happen events).waiters[i]? = some w := by
  induction events generalizing g with
  | nil => exact h
  | cons e events ih =>
    have held : i < g.waiters.length := (List.getElem?_eq_some_iff.1 h).1
    exact ih ((waiter_apply held e).trans h)

theorem waiter_beat {w : Waiter} (h : (g.happen b.all).waiters[i]? = some w) :
    (g.beat b).waiters[i]? = some ((g.happen b.all).look w) := by
  change ((g.happen b.all).waiters.map (g.happen b.all).look)[i]? = _
  rw [List.getElem?_map, h]
  rfl

theorem told_beats {result : Except PathFault Unit} {time : Nat}
    (h : g.waiters[i]? = some (.finished result time)) (bs : List Beat) :
    (g.beats bs).told i = some (result, time) := by
  induction bs generalizing g with
  | nil => simp only [beats, List.foldl_nil, told, h]
  | cons b bs ih => exact ih (waiter_beat (waiter_happen h b.all))

/-! ### A waiting writer -/

/-- A writer that was stalled at `t₀` has looked at every tick up to `now`, and `stall` holds the next
one. -/
structure Awaits (poll t₀ now : Nat) (stall : Stall) : Prop where
  tick : ∃ k, 1 ≤ k ∧ stall.tick = t₀ + k * poll
  ahead : now < stall.tick
  next : stall.tick ≤ now + poll

theorem Awaits.due_iff {poll now : Nat} (h : Awaits poll t₀ now stall) {m : Moment}
    (time : m.time = if m.fresh then now + 1 else now) :
    stall.tick ≤ m.time ↔ m.isTick poll t₀ = true := by
  have positive : 0 < poll := by have := h.ahead; have := h.next; omega
  obtain ⟨k, one, tick⟩ := h.tick
  have ahead := h.ahead
  have next := h.next
  rw [Moment.isTick_iff positive]
  constructor
  · intro due
    split_ifs at time with fresh
    · exact ⟨fresh, k, one, by omega⟩
    · omega
  · rintro ⟨fresh, j, -, other⟩
    rw [if_pos fresh] at time
    -- two ticks less than an interval apart are the same
    rcases Nat.lt_trichotomy j k with below | rfl | above
    · have : (j + 1) * poll ≤ k * poll := Nat.mul_le_mul_right _ below
      rw [Nat.add_mul, Nat.one_mul] at this
      omega
    · omega
    · have : (k + 1) * poll ≤ j * poll := Nat.mul_le_mul_right _ above
      rw [Nat.add_mul, Nat.one_mul] at this
      omega

theorem turn_of_waiting (h : (g.happen b.all).waiters[i]? = some (.waiting stall))
    (due : stall.tick ≤ (g.moment b).time ↔ (g.moment b).isTick g.backlog.marks.poll t₀ = true) :
    (g.beat b).waiters[i]? = some (
      if (g.moment b).ends g.backlog.marks t₀ then
        .finished (g.moment b).answer.1 (g.moment b).answer.2
      else .waiting (if (g.moment b).isTick g.backlog.marks.poll t₀ then
        ⟨stall.tick + g.backlog.marks.poll⟩ else stall)) := by
  rw [waiter_beat h]
  have marks : (g.happen b.all).backlog.marks = g.backlog.marks := marks_happen g b.all
  have time : (g.moment b).time = (g.happen b.all).now := rfl
  have count : (g.moment b).count = (g.happen b.all).backlog.buffered := rfl
  have closed : (g.moment b).closed = (g.happen b.all).closed := rfl
  simp only [Gate.look, Stall.isDue, Stall.look, Backlog.isDrained, Moment.ends, Moment.answer, time,
    count, closed, marks] at due ⊢
  cases (g.happen b.all).closed with
  | true => simp
  | false =>
    by_cases tick : (g.moment b).isTick g.backlog.marks.poll t₀ = true
    · by_cases low : (g.happen b.all).backlog.buffered ≤ g.backlog.marks.low
      · simp [tick, due.2 tick, low]
      · simp [tick, due.2 tick, low]
    · have early : ¬ stall.tick ≤ (g.happen b.all).now := mt due.1 tick
      simp [tick, early]

theorem told_of_turn {stall : Stall} {bs : List Beat}
    (h : (g.happen b.all).waiters[i]? = some (.waiting stall))
    (due : stall.tick ≤ (g.moment b).time ↔ (g.moment b).isTick g.backlog.marks.poll t₀ = true)
    (later : (g.beat b).waiters[i]? = some (.waiting (if (g.moment b).isTick g.backlog.marks.poll t₀ then
        ⟨stall.tick + g.backlog.marks.poll⟩ else stall)) →
      ((g.beat b).beats bs).told i =
        (((g.beat b).moments bs).find? (·.ends g.backlog.marks t₀)).map Moment.answer) :
    (g.beats (b :: bs)).told i =
      ((g.moments (b :: bs)).find? (·.ends g.backlog.marks t₀)).map Moment.answer := by
  have turn := turn_of_waiting h due
  rw [moments, List.find?_cons]
  by_cases ends : (g.moment b).ends g.backlog.marks t₀ = true
  · rw [if_pos ends] at turn
    rw [ends]
    exact told_beats turn bs
  · rw [if_neg ends] at turn
    rw [Bool.not_eq_true] at ends
    rw [ends]
    exact later turn

theorem Awaits.turn {poll now : Nat} (h : Awaits poll t₀ now stall) {m : Moment}
    (time : m.time = if m.fresh then now + 1 else now) :
    Awaits poll t₀ m.time (if m.isTick poll t₀ then ⟨stall.tick + poll⟩ else stall) := by
  have due := h.due_iff time
  obtain ⟨k, one, tick⟩ := h.tick
  have ahead := h.ahead
  have next := h.next
  have passed : now ≤ m.time ∧ m.time ≤ now + 1 := by split_ifs at time <;> omega
  split_ifs with tock
  · have reached := due.2 tock
    refine ⟨⟨k + 1, by omega, ?_⟩, ?_, ?_⟩
    · rw [Nat.add_mul, Nat.one_mul, ← Nat.add_assoc, ← tick]
    · dsimp only; omega
    · dsimp only; omega
  · have early := mt due.1 tock
    exact ⟨⟨k, one, tick⟩, by omega, by omega⟩

theorem Awaits.told_beats {stall : Stall} (bs : List Beat) (h : g.waiters[i]? = some (.waiting stall))
    (awaits : Awaits g.backlog.marks.poll t₀ g.now stall) :
    (g.beats bs).told i = ((g.moments bs).find? (·.ends g.backlog.marks t₀)).map Moment.answer := by
  induction bs generalizing g stall with
  | nil => simp only [beats, List.foldl_nil, told, h, moments, List.find?_nil, Option.map_none]
  | cons b bs ih =>
    have time : (g.moment b).time = if (g.moment b).fresh then g.now + 1 else g.now := now_beat g b
    apply told_of_turn (waiter_happen h b.all) (awaits.due_iff time)
    intro waits
    have marks : (g.beat b).backlog.marks = g.backlog.marks := marks_happen g b.all
    rw [← marks]
    apply ih waits
    rw [marks]
    exact awaits.turn time

/-! ### The call -/

theorem now_of_call {pre post : List Event} (call : b.all = pre ++ .settle :: post) (g : Gate) :
    (g.moment b).time = (g.happen pre).now := by
  have later : .tick ∉ post := by
    intro ticks
    unfold Beat.all at call
    split_ifs at call
    · obtain ⟨pre', -, events⟩ : ∃ pre', pre = .tick :: pre' ∧ b.events = pre' ++ .settle :: post := by
        simpa [List.cons_eq_append_iff] using call
      exact b.timeless (by simp [events, ticks])
    · exact b.timeless (by simp [call, ticks])
  change (g.happen b.all).now = _
  have parts : g.happen b.all = ((g.happen pre).apply .settle).happen post := by
    rw [call]
    simp [happen]
  rw [parts, now_happen later]
  rfl

theorem told_of_call {pre post : List Event} (positive : 0 < g.backlog.marks.poll)
    (call : b.all = pre ++ .settle :: post) (bs : List Beat) :
    (g.beats (b :: bs)).told (g.happen pre).waiters.length =
      (g.happen pre).verdict (g.moments (b :: bs)) := by
  have arrives : (g.happen b.all).waiters[(g.happen pre).waiters.length]? =
      some (g.happen pre).arrive := by
    have parts : g.happen b.all = ((g.happen pre).apply .settle).happen post := by
      rw [call]
      simp [happen]
    rw [parts]
    apply waiter_happen
    exact List.getElem?_concat_length
  have marks : (g.happen pre).backlog.marks = g.backlog.marks := marks_happen g pre
  have time := now_of_call call g
  unfold verdict
  rw [marks]
  split_ifs with low
  · have free : (g.happen pre).arrive = .finished (.ok ()) (g.happen pre).now := by
      simp [arrive, Stall.begin, Backlog.isStalled, marks, UInt64.not_le.2 low]
    rw [free] at arrives
    exact told_beats (waiter_beat arrives) bs
  · have held : (g.happen pre).arrive = .waiting ⟨(g.happen pre).now + g.backlog.marks.poll⟩ := by
      simp [arrive, Stall.begin, Backlog.isStalled, marks, UInt64.not_lt.1 low]
    rw [held] at arrives
    -- no tick of its interval can come before the beat is over
    have before : (g.moment b).isTick g.backlog.marks.poll (g.happen pre).now = false := by
      simp [Moment.isTick, time]
    apply told_of_turn arrives
    · rw [before]
      simp [time, Nat.pos_iff_ne_zero.1 positive]
    · rw [before]
      intro waits
      have marks : (g.beat b).backlog.marks = g.backlog.marks := marks_happen g b.all
      rw [← marks]
      apply Awaits.told_beats bs waits
      have now : (g.beat b).now = (g.happen pre).now := time
      rw [now, marks]
      exact ⟨⟨1, le_rfl, by simp⟩, by simpa using positive, le_rfl⟩

/-! ### The verdict is the answer of the call -/

theorem poll_of_check {marks : Watermarks} (valid : marks.check = .ok ()) : 0 < marks.poll := by
  unfold Watermarks.check at valid
  split_ifs at valid with high poll
  omega

theorem answer_of_stalled {marks : Watermarks} {turns : List Moment} {result : Except PathFault Unit}
    {t : Nat} (told : (turns.find? (·.ends marks t₀)).map Moment.answer = some (result, t)) :
    ∃ m ∈ turns, m.time = t ∧ if m.closed then result = .error .closed
      else result = .ok () ∧ m.count ≤ marks.low ∧ m.isTick marks.poll t₀ = true := by
  obtain ⟨m, found, answer⟩ := Option.map_eq_some_iff.1 told
  refine ⟨m, List.mem_of_find?_eq_some found, congrArg Prod.snd answer, ?_⟩
  have ends := List.find?_some found
  have result := congrArg Prod.fst answer
  simp only [Moment.answer] at result
  simp only [Moment.ends, Bool.or_eq_true, Bool.and_eq_true, decide_eq_true_eq] at ends
  split_ifs with closed
  · rw [if_pos closed] at result
    exact result.symm
  · rw [if_neg closed] at result
    have ends := ends.resolve_left closed
    exact ⟨result.symm, ends.2, ends.1⟩

/-- A writer that arrives during any schedule is let through at once if and only if the count is below
the high watermark, whether or not the gate is closed. Otherwise it gets its result at the first of its
turns at which the gate is closed (`closed`), or at which a tick of its own interval has come and the
count is at most the low watermark (success). In particular it never goes on while the count is between
the watermarks, nor between two ticks. Runs of a gate are such schedules. -/
theorem settles_as_specified {marks : Watermarks} (valid : marks.check = .ok ()) (before : List Beat)
    (b : Beat) {pre post : List Event} (call : b.all = pre ++ .settle :: post) (after : List Beat) :
    let g := (start marks).beats before
    let gate := g.happen pre
    let turns := g.moments (b :: after)
    let told := ((start marks).beats (before ++ b :: after)).told gate.waiters.length
    told = gate.verdict turns ∧
    (told = some (.ok (), gate.now) ↔ gate.backlog.buffered < marks.high) ∧
    (∀ t, marks.high ≤ gate.backlog.buffered → told = some (.ok (), t) →
      (∃ k, 1 ≤ k ∧ t = gate.now + k * marks.poll) ∧
        ∃ m ∈ turns, m.time = t ∧ m.count ≤ marks.low ∧ m.closed = false) ∧
    ∀ events, (start marks).run events = (start marks).beats (events.map .of) := by
  intro g gate turns told
  have marks_gate : gate.backlog.marks = marks := (marks_happen g pre).trans (marks_beats _ before)
  have spec : told = gate.verdict turns := by
    have positive : 0 < g.backlog.marks.poll := by
      rw [show g.backlog.marks = marks from marks_beats _ before]
      exact poll_of_check valid
    have schedule : (start marks).beats (before ++ b :: after) = g.beats (b :: after) :=
      List.foldl_append
    simp only [told, schedule]
    exact told_of_call positive call after
  have stalled {t : Nat} (high : marks.high ≤ gate.backlog.buffered) (goes : told = some (.ok (), t)) :
      (∃ k, 1 ≤ k ∧ t = gate.now + k * marks.poll) ∧
        ∃ m ∈ turns, m.time = t ∧ m.count ≤ marks.low ∧ m.closed = false := by
    rw [spec, verdict, marks_gate, if_neg (UInt64.not_lt.2 high)] at goes
    obtain ⟨m, hm, rfl, ends⟩ := answer_of_stalled goes
    split_ifs at ends with closed
    obtain ⟨-, low, tick⟩ := ends
    obtain ⟨-, ticks⟩ := (Moment.isTick_iff (poll_of_check valid)).1 tick
    exact ⟨ticks, m, hm, rfl, low, by simpa using closed⟩
  refine ⟨spec, ⟨?_, ?_⟩, fun t => stalled, run_eq_beats _⟩
  · intro once
    by_contra low
    obtain ⟨⟨k, one, time⟩, -⟩ := stalled (UInt64.not_lt.1 low) once
    have later : 0 < k * marks.poll := Nat.mul_pos one (poll_of_check valid)
    omega
  · intro low
    rw [spec, verdict, marks_gate, if_pos low]

/-- The count falls below the low watermark between two ticks and rises again; it is low at the second
tick. -/
theorem settles_as_specified_dip :
    let marks : Watermarks := ⟨8, 2, 3⟩
    let b : Beat := ⟨true, [.enqueue 9, .settle, .drain 8], by decide⟩
    let tick : Beat := .of .tick
    let after : List Beat := [.of (.enqueue 4), tick, tick, tick, .of (.drain 3), tick, tick, tick]
    marks.check = .ok () ∧ b.all = [.tick, .enqueue 9] ++ .settle :: [.drain 8] ∧
      ((start marks).beats (b :: after)).told 0 = some (.ok (), 7) := by
  intro marks b tick after
  have valid : marks.check = .ok () := rfl
  have call : b.all = [.tick, .enqueue 9] ++ .settle :: [.drain 8] := rfl
  exact ⟨valid, call, (settles_as_specified valid [] b call after).1.trans (by cbv)⟩

/-- Closing takes precedence over a drained backlog at the same tick. -/
example : ((start ⟨8, 2, 2⟩).beats [.of (.enqueue 8), .of .settle, .of .tick,
    ⟨true, [.drain 8, .close], by decide⟩]).told 0 = some (.error .closed, 2) := rfl

end Gate
end PathRace
