import PathRace.Proofs.Duel.Vote
import PathRace.Proofs.Race.Steady
import PathRace.Proofs.Session.Attempt

/-! Two sessions facing each other over reliable, ordered paths, as a transition system (`Duel.Step`).
`Carried`: the bytes sent on a path are, in order, in the other side's race, on the path, or still to be
written by the sending session. -/

namespace PathRace

namespace Session

variable {E : Type}

/-- The frames that a session has still to send. -/
def outgoing (x : Session E) : List (PathId × Bytes) :=
  match x.state with
  | .racing _ (.acting todo _) => sends todo
  | .racing _ (.writing pid (.offered frame) todo _) => (pid, frame) :: sends todo
  | _ => []

/-- The chunks that the race of a session has taken from a path and not handed out. -/
def arrived (x : Session E) (pid : PathId) : List Bytes := x.race.front pid ++ x.race.queued pid

/-- A session that has started stays started, and no close is undone. -/
structure Onward (x y : Session E) : Prop where
  busy : y.isIdle = false
  grown : x.race.closes <+: y.race.closes

theorem onward_of_same {x y : Session E} (busy : y.isIdle = false)
    (closes : y.race.closes = x.race.closes) : x.Onward y := ⟨busy, by rw [closes]⟩

theorem Onward.trans {x y z : Session E} (h : x.Onward y) (k : y.Onward z) : x.Onward z :=
  ⟨k.busy, h.grown.trans k.grown⟩

theorem closes_fail (failure : Failure) (engine : Option E) (x : Session E) :
    (x.fail failure engine).race.closes = x.race.closes :=
  ((Race.sameTable_raise ..).trans (Race.sameTable_abandon _)).closes

theorem onward_perform (result : Except Failure (List Action)) (e : Election E) (x : Session E) :
    x.Onward (x.perform result e) := by
  cases result with
  | error failure => exact onward_of_same rfl (closes_fail failure _ x)
  | ok todo => exact onward_of_same rfl rfl

theorem isIdle_connect [Engine E] (make : Setup → Except EngineFault E) (config : Config)
    (pids : List PathId) (now : Nat) (x : Session E) (s : Entropy) :
    (x.connect make config pids now s).1.isIdle = false := by
  unfold connect
  split
  · rfl
  · dsimp only
    split
    · rfl
    · exact (onward_perform ..).busy

theorem onward_act (e : Election E) (todo : List Action) (winner : Option (PathId × PathHash))
    (x : Session E) : x.Onward (x.act e todo winner) := by
  rcases todo with _ | ⟨⟨pid, frame⟩ | ⟨pid, hash⟩, rest⟩
  · rcases winner with _ | ⟨pid, hash⟩
    · exact onward_of_same rfl rfl
    · have grown := Race.closes_grow_nominate pid x.race
      simp only [act]
      revert grown
      rcases x.race.nominate pid with ⟨_ | _, race⟩
      · exact fun grown => ⟨rfl, by rw [closes_fail]; exact grown⟩
      · exact fun grown => ⟨rfl, grown⟩
  · have same := (Race.sameTable_openWrite pid x.race).closes
    simp only [act]
    revert same
    rcases x.race.openWrite pid with ⟨_ | _ | _, race⟩
    · exact fun same => onward_of_same rfl ((closes_fail ..).trans same)
    · exact fun same => onward_of_same rfl same
    · exact fun same => onward_of_same rfl same
  · exact onward_of_same rfl rfl

theorem onward_wrote (e : Election E) (pid : PathId) (progress : Progress) (todo : List Action)
    (winner : Option (PathId × PathHash)) (x : Session E) :
    x.Onward (x.wrote e pid progress todo winner) := by
  unfold wrote
  split
  · exact onward_of_same rfl rfl
  · refine ⟨rfl, ?_⟩
    rw [Race.failWrite, Race.closes_prune]
    exact List.prefix_append ..
  · exact onward_of_same rfl rfl

theorem onward_listen [Engine E] (e : Election E) (now : Nat) (x : Session E) (s : Entropy)
    (busy : x.isIdle = false) : x.Onward (x.listen e now s).1 := by
  have paused : x.Onward { x with race := x.race.receive.2 } :=
    onward_of_same busy (Race.sameTable_receive x.race).closes
  unfold listen
  revert paused
  rcases x.race.receive with ⟨_ | _ | ⟨pid, data⟩, race⟩ <;> intro paused
  · dsimp only
    split_ifs
    · exact paused.trans (onward_perform ..)
    · exact paused
  · exact paused.trans (onward_of_same rfl (closes_fail ..))
  · exact paused.trans (onward_perform ..)

theorem onward_pump (pid : PathId) (item : Option Inbound) (x : Session E) (busy : x.isIdle = false) :
    x.Onward { x with race := x.race.after (.pump pid item) } :=
  ⟨busy, Race.closes_grow_pump ..⟩

end Session

/-- Two sessions, and the chunks that wait for each of them on its paths. -/
structure Duel (S : Suite) where
  session : Role → Session (Exchange S)
  queue : Role → PathId → List Bytes

namespace Duel

variable {S : Suite}

def put (d : Duel S) (r : Role) (x : Session (Exchange S)) : Duel S :=
  { d with session := Function.update d.session r x }

def fill (d : Duel S) (r : Role) (pid : PathId) (chunks : List Bytes) : Duel S :=
  { d with queue := Function.update d.queue r (Function.update (d.queue r) pid chunks) }

def race (d : Duel S) (r : Role) : Race := (d.session r).race

def onRace (d : Duel S) (r : Role) (m : Race.Move) : Duel S :=
  d.put r { d.session r with race := (d.race r).after m }

/-- A path is closed for both sessions as soon as one has closed it. -/
def Closed (d : Duel S) (pid : PathId) : Prop := ∃ r, pid ∈ (d.race r).closes.map Prod.fst

/-- The steps of two sessions and their pumps. -/
inductive Step (config : Role → Config) (order : Role → List PathId) (d : Duel S) : Duel S → Prop
  | connect {r : Role} {now : Nat} {s : Entropy} (idle : (d.session r).isIdle = true) :
      Step config order d
        (d.put r ((d.session r).connect (Exchange.new S) (config r) (order r) now s).1)
  | act {r : Role} {e : Election (Exchange S)} {todo : List Action}
      {winner : Option (PathId × PathHash)}
      (state : (d.session r).state = .racing e (.acting todo winner)) :
      Step config order d (d.put r ((d.session r).act e todo winner))
  | wrote {r : Role} {e : Election (Exchange S)} {pid : PathId} {frame : Bytes} {todo : List Action}
      {winner : Option (PathId × PathHash)}
      (state : (d.session r).state = .racing e (.writing pid (.offered frame) todo winner))
      (spared : ¬ d.Closed pid) :
      Step config order d ((d.put r ((d.session r).wrote e pid .ok todo winner)).fill r.peer pid
        (d.queue r.peer pid ++ [frame]))
  | broke {r : Role} {e : Election (Exchange S)} {pid : PathId} {write : Writing} {fault : PathFault}
      {todo : List Action} {winner : Option (PathId × PathHash)}
      (state : (d.session r).state = .racing e (.writing pid write todo winner))
      (closed : d.Closed pid) :
      Step config order d (d.put r ((d.session r).wrote e pid (.failed fault) todo winner))
  | listen {r : Role} {e : Election (Exchange S)} {now : Nat} {s : Entropy}
      (state : (d.session r).state = .racing e .listening) :
      Step config order d (d.put r ((d.session r).listen e now s).1)
  | took {r : Role} {pid : PathId} {chunk : Bytes} {rest : List Bytes}
      (reading : (d.race r).isReading pid = true) (spared : ¬ d.Closed pid)
      (waiting : d.queue r pid = chunk :: rest) :
      Step config order d ((d.onRace r (.pump pid (some (.chunk chunk)))).fill r pid rest)
  | ended {r : Role} {pid : PathId} (closed : d.Closed pid) :
      Step config order d (d.onRace r (.pump pid (some .ended)))
  | pumped {r : Role} {pid : PathId} : Step config order d (d.onRace r (.pump pid none))

@[simp] theorem session_put_self (d : Duel S) (r : Role) (x : Session (Exchange S)) :
    (d.put r x).session r = x := Function.update_self ..

theorem session_put_of_ne (d : Duel S) {r q : Role} (h : q ≠ r) (x : Session (Exchange S)) :
    (d.put r x).session q = d.session q := Function.update_of_ne h ..

@[simp] theorem queue_put (d : Duel S) (r : Role) (x : Session (Exchange S)) :
    (d.put r x).queue = d.queue := rfl

@[simp] theorem session_fill (d : Duel S) (r : Role) (pid : PathId) (chunks : List Bytes) :
    (d.fill r pid chunks).session = d.session := rfl

@[simp] theorem queue_fill_self (d : Duel S) (r : Role) (pid : PathId) (chunks : List Bytes) :
    (d.fill r pid chunks).queue r pid = chunks := by simp [fill]

theorem queue_fill_of_ne (d : Duel S) {r q : Role} {pid p : PathId} (h : ¬ (q = r ∧ p = pid))
    (chunks : List Bytes) : (d.fill r pid chunks).queue q p = d.queue q p := by
  by_cases hq : q = r
  · subst hq
    have hp : p ≠ pid := fun hp => h ⟨rfl, hp⟩
    simp [fill, hp]
  · simp [fill, hq]

end Duel

/-! ### What a path carries to one end -/

/-- The frames in flight towards one end of a path: those that have arrived there, those that wait on
the path, and those that the other end has still to send. If the path has been closed, only those that
have arrived are sure to be handed out. -/
def Carried (closed serves : Prop) (arrived queue outgoing : List Bytes) (flight : Bytes) : Prop :=
  ¬ closed ∨ serves → ∃ way, (¬ closed → way = queue ++ outgoing) ∧
    (∀ c ∈ arrived ++ way, Frame.Whole c) ∧ (arrived ++ way).flatten = flight

namespace Carried

variable {closed closed' serves serves' : Prop} {arrived queue outgoing : List Bytes} {flight : Bytes}

theorem weaken (h : Carried closed serves arrived queue outgoing flight) (shut : closed → closed')
    (fewer : serves' → serves) : Carried closed' serves' arrived queue outgoing flight := by
  intro live
  obtain ⟨way, place, rest⟩ := h (live.imp (fun spared hc => spared (shut hc)) fewer)
  exact ⟨way, fun spared => place fun hc => spared (shut hc), rest⟩

theorem arriving {arrived' : List Bytes} (h : Carried closed serves arrived queue outgoing flight)
    (same : ¬ closed ∨ serves → arrived' = arrived) :
    Carried closed serves arrived' queue outgoing flight := by
  intro live
  rw [same live]
  exact h live

theorem of_open (h : Carried closed serves arrived queue outgoing flight) (spared : ¬ closed) :
    Carried closed' serves' arrived queue outgoing flight := by
  intro _
  obtain ⟨way, place, rest⟩ := h (.inl spared)
  exact ⟨way, fun _ => place spared, rest⟩

theorem of_closed {queue' outgoing' : List Bytes}
    (h : Carried closed serves arrived queue outgoing flight) (shut : closed) :
    Carried closed serves arrived queue' outgoing' flight := by
  intro live
  obtain ⟨way, -, rest⟩ := h live
  exact ⟨way, fun spared => (spared shut).elim, rest⟩

theorem sent (h : Carried closed serves arrived queue outgoing flight) {frames : List Bytes}
    (whole : ∀ c ∈ frames, Frame.Whole c) :
    Carried closed serves arrived queue (outgoing ++ frames) (flight ++ frames.flatten) := by
  intro live
  obtain ⟨way, place, each, all⟩ := h live
  refine ⟨way ++ frames, fun spared => ?_, fun c hc => ?_, ?_⟩
  · rw [place spared, List.append_assoc]
  · rw [← List.append_assoc] at hc
    exact (List.mem_append.1 hc).elim (each c) (whole c)
  · rw [← List.append_assoc, List.flatten_append, all]

theorem written {c : Bytes} (h : Carried closed serves arrived queue (c :: outgoing) flight) :
    Carried closed serves arrived (queue ++ [c]) outgoing flight := by
  intro live
  obtain ⟨way, place, rest⟩ := h live
  exact ⟨way, fun spared => by rw [place spared]; simp, rest⟩

theorem taken {c : Bytes} (h : Carried closed serves arrived (c :: queue) outgoing flight)
    (spared : ¬ closed) : Carried closed serves' (arrived ++ [c]) queue outgoing flight := by
  intro _
  obtain ⟨way, place, each, all⟩ := h (.inl spared)
  rw [place spared] at each all
  exact ⟨queue ++ outgoing, fun _ => rfl, by simpa using each, by simpa using all⟩

theorem heard {c : Bytes} (h : Carried closed serves (c :: arrived) queue outgoing flight)
    (live : ¬ closed ∨ serves) : Frame.Whole c ∧ ∃ rest, flight = c ++ rest ∧
      Carried closed serves arrived queue outgoing rest := by
  obtain ⟨way, place, each, all⟩ := h live
  refine ⟨each c (by simp), (arrived ++ way).flatten, ?_, fun _ => ⟨way, place, fun b hb => ?_, rfl⟩⟩
  · rw [← all]; rfl
  · exact each b (List.mem_cons_of_mem _ hb)

end Carried

end PathRace
