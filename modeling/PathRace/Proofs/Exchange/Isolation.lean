import PathRace.Proofs.Exchange.Containment
import PathRace.Proofs.Exchange.Timeless

/-! Noninterference between paths. Before another path is nominated, the answers of a path depend only
on its own inputs: its chunks, and the time and random bytes drawn for each of its frames (`Given`).
They are the answers of the path's own state, run on these inputs (`strand?_calls`). -/

namespace PathRace

namespace Entropy

def since (e e' : Entropy) : Bytes :=
  (List.range (e'.drawn - e.drawn)).map fun i => e.stream (e.drawn + i)

/-- The next `n` bytes of both sources are the same. -/
def Agree (n : Nat) (e e' : Entropy) : Prop :=
  ∀ i < n, e.stream (e.drawn + i) = e'.stream (e'.drawn + i)

theorem Agree.draw {n k : Nat} {e e' : Entropy} (h : Agree (n + k) e e') :
    (e.draw n).1 = (e'.draw n).1 ∧ Agree k (e.draw n).2 (e'.draw n).2 := by
  constructor
  · refine Subtype.ext (List.map_congr_left fun i hi => ?_)
    exact h i (Nat.lt_of_lt_of_le (List.mem_range.1 hi) (Nat.le_add_right n k))
  · intro i hi
    simpa [Nat.add_assoc] using h (n + i) (Nat.add_lt_add_left hi n)

theorem agree_cycle (bytes : Bytes) (e : Entropy)
    (h : ∀ i (hi : i < bytes.length), bytes[i] = e.stream (e.drawn + i)) :
    Agree bytes.length e (cycle bytes) := by
  intro i hi
  have turn : i % bytes.length = i := Nat.mod_eq_of_lt hi
  simp [cycle, turn, hi, h]

theorem agree_since (e e' : Entropy) : Agree (e'.drawn - e.drawn) e (cycle (e.since e')) := by
  have length : (e.since e').length = e'.drawn - e.drawn := by simp [since]
  rw [← length]
  exact agree_cycle _ _ fun i hi => by simp [since]

end Entropy

namespace Device

variable {S : Suite}

theorem step_congr (d : Device) (pid : PathId) (now : Nat) (stage : Stage) (c : Bytes)
    (s s' : Entropy)
    (h : Entropy.Agree ((d.step S pid now stage c s).entropy.drawn - s.drawn) s s') :
    (d.step S pid now stage c s').result = (d.step S pid now stage c s).result := by
  cases stage with
  | awaitingHello =>
    simp only [step, onHello] at h ⊢
    rcases hr : (d.authLane S d.role.peer pid).receive S c with ⟨fault | m, lane⟩
    · rfl
    · cases m with
      | hello challenge key =>
        rw [hr] at h
        dsimp only at h ⊢
        cases hg : S.agree (s.draw 32).1 key with
        | none =>
          have h : Entropy.Agree (32 + 0) s s' := by simpa [hg] using h
          rw [← h.draw.1, hg]
        | some shared =>
          have h : Entropy.Agree (32 + (16 + 0)) s s' := by simpa [hg, Nat.add_assoc] using h
          obtain ⟨secret, rest⟩ := h.draw
          rw [← secret, hg]
          dsimp only
          rw [← rest.draw.1]
      | _ => rfl
  | awaitingAuthHello secret own sentAt =>
    simp only [step, onAuthHello]
    rcases (d.authLane S d.role.peer pid).receive S c with ⟨fault | m, lane⟩
    · rfl
    · cases m with
      | authHello response challenge key =>
        dsimp only
        split_ifs
        · rfl
        · cases S.agree secret key <;> rfl
      | _ => rfl
  | awaitingAuth transport own sentAt =>
    simp only [step, onAuth]
    rcases transport.rx.receive S c with ⟨fault | m, rx⟩
    · rfl
    · cases m with
      | auth response =>
        dsimp only
        split_ifs <;> rfl
      | _ => rfl
  | ready transport =>
    simp only [step, onNominate]
    rcases transport.rx.receive S c with ⟨fault | m, rx⟩
    · rfl
    · dsimp only
      split_ifs <;> rfl
  | nominated transport =>
    simp only [step, onUlp]
    rcases transport.rx.receive S c with ⟨fault | m, rx⟩
    · rfl
    · cases m <;> rfl
  | failed => rfl

end Device

/-! ### A path by itself -/

/-- What a path is given: a chunk, or a look at a certain time with the random bytes that it draws. -/
inductive Given
  | chunk (bytes : Bytes)
  | look (now : Nat) (drawn : Bytes)
  deriving DecidableEq

def Given.timeless : Given → Given
  | chunk bytes => chunk bytes
  | look _ drawn => look 0 drawn

/-- The result of a call. -/
abbrev Reply := Except EngineFault (List (PathId × Outcome))

def Reply.timeless (a : Reply) : Reply := a.map (·.map fun (pid, o) => (pid, o.timeless))

namespace Strand

variable {S : Suite}

/-- The specification: the answer of a path that knows of no other, and its next strand. -/
def answer (S : Suite) (d : Device) (pid : PathId) : Option Strand → Given → Reply × Option Strand
  | none, _ => (.error (.unknownPath pid), none)
  | some strand, .chunk bytes => (.ok [], some { strand with inbox := strand.inbox.push bytes })
  | some strand, .look now drawn =>
    match strand.inbox.next with
    | (.error fault, _) => (.error fault, some strand)
    | (.ok none, _) => (.ok [], some strand)
    | (.ok (some c), inbox) =>
      match (d.step S pid now strand.stage c (.cycle drawn)).result with
      | .error fault => (.error fault, some ⟨inbox, .failed⟩)
      | .ok (stage, o) => (.ok [(pid, o)], some ⟨inbox, stage⟩)

def answers (S : Suite) (d : Device) (pid : PathId) :
    Option Strand → List Given → List Reply × Option Strand
  | strand, [] => ([], strand)
  | strand, g :: gs =>
    let (a, strand) := answer S d pid strand g
    let (rest, strand) := answers S d pid strand gs
    (a :: rest, strand)

theorem answer_timeless (d : Device) (pid : PathId) (strand : Option Strand) (g : Given) :
    answer S d pid (strand.map timeless) g.timeless =
      ((answer S d pid strand g).1.timeless, (answer S d pid strand g).2.map timeless) := by
  cases strand with
  | none => rfl
  | some strand =>
    cases g with
    | chunk bytes => rfl
    | look now drawn =>
      simp only [answer, Option.map_some, Given.timeless, timeless]
      rcases strand.inbox.next with ⟨fault | _ | c, inbox⟩
      · rfl
      · rfl
      · dsimp only
        rw [Device.step_timeless d pid now strand.stage c]
        rcases hr : (d.step S pid now strand.stage c (.cycle drawn)).result with fault | ⟨stage, o⟩
        · simp [Device.Step.timeless, hr, Except.map, Reply.timeless, timeless, Stage.timeless]
        · simp [Device.Step.timeless, hr, Except.map, Reply.timeless, timeless]

theorem answers_timeless (d : Device) (pid : PathId) (strand : Option Strand) (gs : List Given) :
    answers S d pid (strand.map timeless) (gs.map Given.timeless) =
      ((answers S d pid strand gs).1.map Reply.timeless,
        (answers S d pid strand gs).2.map timeless) := by
  induction gs generalizing strand with
  | nil => rfl
  | cons g gs ih => simp only [answers, List.map_cons, answer_timeless, ih]

end Strand

/-! ### A path among others -/

namespace Call

/-- Whether the call is `addChunk` or `processFrame`. -/
def feeds : Call → Bool
  | addChunk .. | processFrame .. => true
  | start .. | nominate _ | createFrame _ => false

end Call

namespace Exchange

variable {S : Suite} {x : Exchange S} {pid : PathId} {c : Call} {cs : List Call}

def gives (pid : PathId) (c : Call) (x : Exchange S) : List Given :=
  match c with
  | .addChunk p bytes => if p = pid then [.chunk bytes] else []
  | .processFrame p now s =>
    if p = pid then [.look now (s.since (x.processFrame p now s).2.2)] else []
  | .start .. | .nominate _ | .createFrame _ => []

/-- What a path is given by a list of calls. -/
def given (pid : PathId) : List Call → Exchange S → List Given
  | [], _ => []
  | c :: cs, x => x.gives pid c ++ given pid cs (x.call c).2

/-- The answers to the calls that are about a path. -/
def answers (pid : PathId) : List Call → Exchange S → List Reply
  | [], _ => []
  | c :: cs, x => (if c.path? = some pid then [(x.call c).1] else []) ++ answers pid cs (x.call c).2

theorem still_of_feeds (x : Exchange S) (hc : c.feeds = true) :
    (x.call c).2.device = x.device ∧
      ∀ q, x.nominated = some q → (x.call c).2.nominated = some q := by
  cases c with
  | start | nominate | createFrame => cases hc
  | addChunk p chunk => cases hs : x.strand? p <;> simp [call, addChunk, hs, put]
  | processFrame p now s =>
    have turn := turn_processFrame x p now s
    refine ⟨?_, fun q hq => turn.nominated hq⟩
    generalize x.yields _ = ys at turn
    generalize (x.call _).2 = x' at turn ⊢
    cases turn with
    | still => rfl
    | turned deed t => exact t.device

theorem nominated_of_feeds (feeds : ∀ c ∈ cs, Call.feeds c = true) {q : PathId}
    (hq : x.nominated = some q) : (x.calls cs).nominated = some q := by
  induction cs generalizing x with
  | nil => exact hq
  | cons c cs ih =>
    have still := (x.still_of_feeds (feeds c List.mem_cons_self)).2 q hq
    exact ih (fun c hc => feeds c (List.mem_cons_of_mem _ hc)) still

theorem strand?_elsewhere (hc : c.feeds = true) (away : c.path? ≠ some pid)
    (alone : ∀ q, (x.call c).2.nominated = some q → q = pid) :
    (x.call c).2.strand? pid = x.strand? pid := by
  cases c with
  | start | nominate | createFrame => cases hc
  | addChunk p chunk =>
    have away : pid ≠ p := fun he => away (congrArg some he.symm)
    cases hs : x.strand? p with
    | none => simp [call, addChunk, hs]
    | some strand =>
      have put := strand?_put hs { strand with inbox := strand.inbox.push chunk } pid
      rw [if_neg away] at put
      simpa [call, addChunk, hs] using put
  | processFrame p now s =>
    have away : pid ≠ p := fun he => away (congrArg some he.symm)
    have turn := turn_processFrame x p now s
    generalize x.yields _ = ys at turn
    generalize (x.call _).2 = x' at turn alone ⊢
    cases turn with
    | still => rfl
    | @turned q old new used o _ deed t =>
      have same : q = p := by cases deed <;> rfl
      subst same
      rw [t.others pid away]
      split_ifs with elected
      · exact absurd (alone q (by rw [t.nominated, if_pos elected])).symm away
      · rfl

/-- A call about a path is answered by the specification. -/
theorem call_here (hc : c.feeds = true) (here : c.path? = some pid) :
    ∃ g, x.gives pid c = [g] ∧
      ((x.call c).1, (x.call c).2.strand? pid) = Strand.answer S x.device pid (x.strand? pid) g := by
  cases c with
  | start | nominate | createFrame => cases hc
  | addChunk p chunk =>
    obtain rfl : p = pid := Option.some.inj here
    refine ⟨.chunk chunk, if_pos rfl, ?_⟩
    cases hs : x.strand? p with
    | none => simp [call, addChunk, hs, Strand.answer, Except.map]
    | some strand =>
      have put := strand?_put hs { strand with inbox := strand.inbox.push chunk } p
      rw [if_pos rfl] at put
      simpa [call, addChunk, hs, Strand.answer, Except.map] using put
  | processFrame p now s =>
    obtain rfl : p = pid := Option.some.inj here
    refine ⟨.look now (s.since (x.processFrame p now s).2.2), if_pos rfl, ?_⟩
    cases hs : x.strand? p with
    | none => simp [call, processFrame, hs, Strand.answer, Except.map]
    | some strand =>
      obtain ⟨inbox, stage⟩ := strand
      rcases hn : inbox.next with ⟨fault | _ | ciphertext, inbox'⟩
      · simp [call, processFrame, hs, hn, Strand.answer, Except.map]
      · simp [call, processFrame, hs, hn, Strand.answer, Except.map]
      · have drawn : (x.processFrame p now s).2.2 =
            (x.device.step S p now stage ciphertext s).entropy := by
          simp only [processFrame, hs, hn]
          rcases (x.device.step S p now stage ciphertext s).result with fault | ⟨stage', o⟩ <;> rfl
        have replay := Device.step_congr x.device p now stage ciphertext s _
          (Entropy.agree_since s (x.device.step S p now stage ciphertext s).entropy)
        simp only [Strand.answer, hn, drawn, replay]
        cases hr : (x.device.step S p now stage ciphertext s).result with
        | error fault =>
          rw [call_of_refused hs hn hr]
          have put := strand?_put
            (x := x.record (x.device.step S p now stage ciphertext s).used) hs ⟨inbox', .failed⟩ p
          exact Prod.ext rfl (put.trans (if_pos rfl))
        | ok result =>
          obtain ⟨stage', o⟩ := result
          rw [call_of_taken hs hn hr]
          exact Prod.ext rfl (turned_took hs _).after

theorem gives_elsewhere (away : c.path? ≠ some pid) : x.gives pid c = [] := by
  cases c with
  | start | nominate | createFrame => rfl
  | addChunk p chunk => exact if_neg fun he => away (congrArg some he)
  | processFrame p now s => exact if_neg fun he => away (congrArg some he)

theorem strand?_calls (feeds : ∀ c ∈ cs, Call.feeds c = true)
    (alone : ∀ q, (x.calls cs).nominated = some q → q = pid) :
    (x.answers pid cs, (x.calls cs).strand? pid) =
      Strand.answers S x.device pid (x.strand? pid) (x.given pid cs) := by
  induction cs generalizing x with
  | nil => rfl
  | cons c cs ih =>
    obtain ⟨hc, rest⟩ := List.forall_mem_cons.1 feeds
    have tail := ih (x := (x.call c).2) rest alone
    rw [(x.still_of_feeds hc).1] at tail
    by_cases here : c.path? = some pid
    · obtain ⟨g, gives, answer⟩ := call_here (x := x) hc here
      simp only [answers, given, gives, here, if_true, List.singleton_append, Strand.answers,
        ← answer, ← tail]
      rfl
    · have alone' (q : PathId) (hq : (x.call c).2.nominated = some q) : q = pid :=
        alone q (nominated_of_feeds rest hq)
      rw [strand?_elsewhere hc here alone'] at tail
      simp only [answers, given, gives_elsewhere here, here, if_false, List.nil_append, ← tail]
      rfl

/-- Take two exchanges of one device that agree on a path, with no other path nominated, and calls that
give the path the same in both. Then the answers on the path are the same, and so is its state. What
other paths are given, and when, makes no difference, and neither does their state. If the path is
looked at other times, the result is the same apart from the round trips. -/
theorem no_interference {x y : Exchange S} {pid : PathId} {cs ds : List Call}
    (device : x.device = y.device) (here : x.strand? pid = y.strand? pid)
    (feeds : ∀ c ∈ cs, c.feeds = true) (feeds' : ∀ c ∈ ds, c.feeds = true)
    (alone : ∀ q, (x.calls cs).nominated = some q → q = pid)
    (alone' : ∀ q, (y.calls ds).nominated = some q → q = pid) :
    (x.given pid cs = y.given pid ds →
      x.answers pid cs = y.answers pid ds ∧
        (x.calls cs).strand? pid = (y.calls ds).strand? pid) ∧
    ((x.given pid cs).map Given.timeless = (y.given pid ds).map Given.timeless →
      (x.answers pid cs).map Reply.timeless = (y.answers pid ds).map Reply.timeless ∧
        ((x.calls cs).strand? pid).map Strand.timeless =
          ((y.calls ds).strand? pid).map Strand.timeless) := by
  have mine := strand?_calls (x := x) feeds alone
  have theirs := strand?_calls (x := y) feeds' alone'
  rw [← device, ← here] at theirs
  constructor
  · intro same
    rw [same] at mine
    exact Prod.mk.inj (mine.trans theirs.symm)
  · intro same
    have mine' := Strand.answers_timeless (S := S) x.device pid (x.strand? pid) (x.given pid cs)
    have theirs' := Strand.answers_timeless (S := S) x.device pid (x.strand? pid) (y.given pid ds)
    rw [← mine] at mine'
    rw [← theirs] at theirs'
    rw [same] at mine'
    exact Prod.mk.inj (mine'.symm.trans theirs')

/-- The hello of a responder on path 7. -/
def plainHello : Bytes :=
  (Lane.start (Suite.plain.authKey (Octets.zero 32) .responder) 7 (.outbound .responder)).framed
    Suite.plain (.hello (Octets.zero 16) (Octets.zero 32))

/-- The path is greeted once alone, and once while another path is given a forged frame for which a byte
has been drawn. -/
theorem no_interference_plain :
    let x : Exchange Suite.plain :=
      ⟨⟨.initiator, false, Octets.zero 32⟩, [(7, .fresh), (8, .fresh)], true, none, []⟩
    let cs := [.addChunk 7 plainHello, .processFrame 7 5 (.cycle [1])]
    let ds (now : Nat) := [.addChunk 8 (Frame.announce 1 ++ [0]), .addChunk 7 plainHello,
      .processFrame 8 0 (.cycle []), .processFrame 7 now ⟨fun i => if i = 0 then 9 else 1, 1⟩]
    x.given 7 cs = [.chunk plainHello, .look 5 (List.replicate 48 1)] ∧
      (x.answers 7 cs).length = 2 ∧ ((x.calls (ds 5)).strand? 8).map Strand.stage = some .failed ∧
      (x.answers 7 cs = x.answers 7 (ds 5) ∧ (x.calls cs).strand? 7 = (x.calls (ds 5)).strand? 7) ∧
      (x.answers 7 cs).map Reply.timeless = (x.answers 7 (ds 9)).map Reply.timeless := by
  intro x cs ds
  have given : x.given 7 cs = [.chunk plainHello, .look 5 (List.replicate 48 1)] := by decide +kernel
  have same : x.given 7 cs = x.given 7 (ds 5) := by decide +kernel
  have later : (x.given 7 cs).map Given.timeless = (x.given 7 (ds 9)).map Given.timeless := by
    decide +kernel
  have quiet (n : Option PathId) (h : n = none) (q : PathId) (hq : n = some q) : q = 7 := by
    rw [h] at hq; cases hq
  have feeds : ∀ c ∈ cs, c.feeds = true := by simp [cs, Call.feeds]
  have feeds' (now : Nat) : ∀ c ∈ ds now, c.feeds = true := by simp [ds, Call.feeds]
  have alone (q : PathId) (hq : (x.calls cs).nominated = some q) : q = 7 :=
    quiet _ (by decide +kernel) q hq
  have apart (now : Nat) (none : (x.calls (ds now)).nominated = none) :=
    no_interference (x := x) (y := x) rfl rfl feeds (feeds' now) alone (quiet _ none)
  exact ⟨given, by decide +kernel, by decide +kernel, (apart 5 (by decide +kernel)).1 same,
    ((apart 9 (by decide +kernel)).2 later).1⟩

end Exchange

end PathRace
