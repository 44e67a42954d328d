import PathRace.Proofs.Exchange.Nonces
import PathRace.Proofs.Pair.Agreement
import PathRace.Proofs.Reception.Prompt
import PathRace.Session

/-! The bytes of one path from the first one on. They are fed to the election until the path is
nominated; the bytes that the engine still holds then, and all later ones, go to the path's reader. The
bytes are processed frame by frame (`Settles`), independently of the bytes behind a frame, so their cut
into chunks does not matter. -/

namespace PathRace

/-- The race after the nomination of its only path. -/
def Race.sole (pid : PathId) : Race := ((Race.idle.enter [pid]).2.nominate pid).2

theorem Race.read_sole (pid : PathId) (chunk : Bytes) :
    { Race.sole pid with slot := some (pid, chunk) }.read = (some (.ok (some chunk)), Race.sole pid) := by
  simp [sole, idle, enter, firstRepeated, nominate, closing, holdsWriter, read, Signal.heard, Signal.quiet]

namespace Session

variable {E : Type} [Engine E]

def won (engine : E) (pid : PathId) (hash : PathHash) : Session E :=
  ⟨Race.sole pid, .connected engine pid hash⟩

/-- At most `n` of the payloads that the engine holds. -/
def takes (now : Nat) : Nat → Session E → Entropy → Except Failure (List Bytes) × Session E × Entropy
  | 0, x, s => (.ok [], x, s)
  | n + 1, x, s =>
    match x.take now s with
    | (none, x, s) => (.ok [], x, s)
    | (some (.error failure), x, s) => (.error failure, x, s)
    | (some (.ok data), x, s) =>
      let (more, x, s) := takes now n x s
      (more.map (data :: ·), x, s)

/-- A bound on the frames that the engine holds. -/
def held (x : Session E) : Nat :=
  match x.state with
  | .connected engine pid _ => Engine.pending engine pid
  | _ => 0

def via {S : Suite} (g : Exchange S → Exchange S) (x : Session (Exchange S)) : Session (Exchange S) :=
  match x.state with
  | .connected engine pid hash => ⟨x.race, .connected (g engine) pid hash⟩
  | _ => x

end Session

/-- The actions and payloads so far, and the randomness that is left. -/
structure Harvest where
  actions : List Action
  payloads : List Bytes
  entropy : Entropy

/-- What the bytes of a path go to: the election, then the reader of the connection, unless something is
refused. -/
inductive Reception (S : Suite)
  | racing (election : Election (Exchange S)) (harvest : Harvest)
  | reading (connection : Session (Exchange S)) (harvest : Harvest)
  | failed

namespace Reception

variable {S : Suite} {pid : PathId} {now : Nat}

/-- The reception after an answer of the election; a winner hands over to the reader. -/
def decided (h : Harvest) :
    Except Failure (List Action) × Election (Exchange S) × Entropy → Reception S
  | (.error _, _, _) => .failed
  | (.ok actions, e, s) =>
    let h := { h with actions := h.actions ++ actions, entropy := s }
    match winners actions with
    | [] => .racing e h
    | (winner, hash) :: _ => .reading (.won e.engine winner hash) h

def taken (h : Harvest) : Except Failure (List Bytes) × Session (Exchange S) × Entropy → Reception S
  | (.error _, _, _) => .failed
  | (.ok data, x, s) => .reading x { h with payloads := h.payloads ++ data, entropy := s }

/-- The reader takes every payload that is complete. -/
def read (now : Nat) : Reception S → Reception S
  | .reading x h => taken h (x.takes now (x.held + 1) h.entropy)
  | r => r

def feed (pid : PathId) (chunk : Bytes) (now : Nat) : Reception S → Reception S
  | .racing e h => (decided h (e.handle (.frame pid chunk) now h.entropy)).read now
  | .reading x h =>
    match { x with race := { x.race with slot := some (pid, chunk) } : Session _ }.feed with
    | (some (.ok (some ())), x) => (reading x h).read now
    | _ => .failed
  | .failed => .failed

def run (pid : PathId) (cut : List (Bytes × Nat)) (r : Reception S) : Reception S :=
  cut.foldl (fun r c => r.feed pid c.1 c.2) r

/-- The actions and payloads, unless something has been refused. -/
def outcome? : Reception S → Option (List Action × List Bytes)
  | .racing _ h | .reading _ h => some (h.actions, h.payloads)
  | .failed => none

/-! ### One frame -/

/-- The effect of one frame, if one is complete. -/
def turn (pid : PathId) (now : Nat) : Reception S → Option (Reception S)
  | .racing e h =>
    match Engine.processFrame pid now e.engine h.entropy with
    | (.error _, _, _) => some .failed
    | (.ok none, _, _) => none
    | (.ok (some o), engine, s) =>
      let (result, e) := { e with engine }.accept pid o (Election.onReady pid now)
      some (decided h (result, e, s))
  | .reading x h =>
    match x.take now h.entropy with
    | (none, _, _) => none
    | (some result, x, s) => some (taken h (result.map ([·]), x, s))
  | .failed => none

/-- Processing the complete frames one by one leads from one reception to the other. -/
inductive Settles (pid : PathId) (now : Nat) : Reception S → Reception S → Prop
  | rest {r : Reception S} (last : r.turn pid now = none) : Settles pid now r r
  | turn {r r₁ r' : Reception S} (first : r.turn pid now = some r₁) (others : Settles pid now r₁ r') :
      Settles pid now r r'

theorem Settles.at_rest {r r' : Reception S} (h : Settles pid now r r') : r'.turn pid now = none := by
  induction h with
  | rest last => exact last
  | turn _ _ ih => exact ih

theorem Settles.deterministic {r a b : Reception S} (ha : Settles pid now r a) (hb : Settles pid now r b) :
    a = b := by
  induction ha with
  | rest last =>
    cases hb with
    | rest => rfl
    | turn first => rw [last] at first; cases first
  | turn first _ ih =>
    cases hb with
    | rest last => rw [last] at first; cases first
    | turn first' others =>
      obtain rfl := Option.some.inj (first.symm.trans first')
      exact ih others

/-! ### The stage of a path -/

/-- Path `pid` is in the race or has won, and nothing has been refused. -/
inductive Along (pid : PathId) : Reception S → Prop
  | racing {e : Election (Exchange S)} {h : Harvest} (phase : e.phase = .nominating)
      (prompt : e.Prompt) (knows : e.engine.Knows pid) : Along pid (.racing e h)
  | reading {engine : Exchange S} {hash : PathHash} {h : Harvest} (knows : engine.Knows pid) :
      Along pid (.reading (.won engine pid hash) h)
  | failed : Along pid .failed

theorem along_decided {e e' : Election (Exchange S)} {h : Harvest} {actions : List Action} {s : Entropy}
    (follows : Election.Follows pid e e' actions) (prompt : e.Prompt) :
    Along pid (decided h (.ok actions, e', s)) := by
  unfold decided
  rcases follows.ended with ⟨hw, hp⟩ | ⟨hash, hw, -⟩
  · simp only [hw]
    exact .racing hp (follows.prompt prompt) follows.knows
  · simp only [hw]
    exact .reading follows.knows

def delivery : Except EngineFault (Option Outcome) → Option (Option Bytes)
  | .error _ => some none
  | .ok none => none
  | .ok (some ⟨none, none, some data⟩) => some (some data)
  | .ok (some _) => some none

theorem delivery_none {answer : Except EngineFault (Option Outcome)} (h : delivery answer = none) :
    answer = .ok none := by
  unfold delivery at h
  split at h <;> first | rfl | cases h

theorem delivery_payload {answer : Except EngineFault (Option Outcome)} {data : Bytes}
    (h : delivery answer = some (some data)) : answer = .ok (some (.data data)) := by
  unfold delivery at h
  split at h <;> simp at h
  rw [h]
  rfl

theorem delivery_timeless (answer : Except EngineFault (Option Outcome)) :
    delivery (answer.map (·.map Outcome.timeless)) = delivery answer := by
  rcases answer with fault | _ | ⟨_ | rtt | hash, _ | out, _ | ulp⟩ <;> rfl

theorem take_won (pid : PathId) (now : Nat) (engine : Exchange S) (hash : PathHash) (s : Entropy) :
    let t := (Session.won engine pid hash).take now s
    let p := Engine.processFrame pid now engine s
    match delivery p.1 with
    | none => t = (none, .won p.2.1 pid hash, p.2.2)
    | some (some data) => t = (some (.ok data), .won p.2.1 pid hash, p.2.2)
    | some none => ∃ failure x, t = (some (.error failure), x, p.2.2) := by
  simp only [Session.take, Session.won]
  rcases Engine.processFrame pid now engine s with
    ⟨fault | _ | ⟨_ | update, _ | out, _ | data⟩, engine', s'⟩
  all_goals first | rfl | exact ⟨_, _, rfl⟩

theorem turn_won (pid : PathId) (now : Nat) (engine : Exchange S) (hash : PathHash) (h : Harvest) :
    let p := Engine.processFrame pid now engine h.entropy
    (reading (.won engine pid hash) h).turn pid now = (delivery p.1).map fun
      | none => failed
      | some data => .reading (.won p.2.1 pid hash)
          { h with payloads := h.payloads ++ [data], entropy := p.2.2 } := by
  intro p
  have taken := take_won pid now engine hash h.entropy
  unfold turn
  rcases hd : delivery p.1 with _ | _ | data <;> simp only [p] at hd <;> simp only [hd] at taken
  · simp only [taken, Option.map_none]
  · obtain ⟨failure, x, taken⟩ := taken
    simp only [taken]
    rfl
  · simp only [taken]
    rfl

/-! ### Effect of a chunk -/

theorem decided_append {h : Harvest} {first : List Action} (quiet : winners first = [])
    (more : Except Failure (List Action)) (e : Election (Exchange S)) (s s' : Entropy) :
    decided h (more.map (first ++ ·), e, s) =
      decided { h with actions := h.actions ++ first, entropy := s' } (more, e, s) := by
  cases more with
  | error failure => rfl
  | ok actions =>
    simp only [decided, Except.map, winners_append, quiet, List.nil_append, List.append_assoc]

theorem taken_cons (h : Harvest) (data : Bytes) (more : Except Failure (List Bytes))
    (x : Session (Exchange S)) (s s' : Entropy) :
    taken h (more.map (data :: ·), x, s) =
      taken { h with payloads := h.payloads ++ [data], entropy := s' } (more, x, s) := by
  cases more with
  | error failure => rfl
  | ok payloads => simp [taken, Except.map]

theorem settles_takes {n : Nat} {engine : Exchange S} {hash : PathHash} {h : Harvest}
    (enough : Engine.pending engine pid < n) :
    Settles pid now (.reading (.won engine pid hash) h)
      (taken h ((Session.won engine pid hash).takes now n h.entropy)) := by
  induction n generalizing engine h with
  | zero => omega
  | succ n ih =>
    have take := take_won pid now engine hash h.entropy
    have turn := turn_won pid now engine hash h
    rcases hp : Engine.processFrame pid now engine h.entropy with ⟨answer, engine', s'⟩
    rw [Session.takes]
    simp only [hp] at take turn
    rcases hd : delivery answer with _ | _ | data <;> simp only [hd] at take turn
    · -- no frame is complete
      obtain rfl := delivery_none hd
      obtain ⟨rfl, rfl⟩ := Exchange.processFrame_none hp
      simp only [take, taken, List.append_nil]
      exact .rest turn
    · obtain ⟨failure, x, take⟩ := take
      simp only [take]
      exact .turn turn (.rest rfl)
    · simp only [take]
      rw [taken_cons h data _ _ _ s']
      have fewer := Engine.Finite.pending_lt pid now engine h.entropy _ engine' s'
        (hp.trans (by rw [delivery_payload hd]))
      exact .turn turn (ih (h := { h with payloads := h.payloads ++ [data], entropy := s' }) (by omega))

theorem settles_read (engine : Exchange S) (hash : PathHash) (h : Harvest) :
    Settles pid now (.reading (.won engine pid hash) h)
      ((reading (.won engine pid hash) h).read now) :=
  settles_takes (Nat.lt_succ_self _)

theorem settles_drain {n : Nat} {e : Election (Exchange S)} {h : Harvest} (phase : e.phase = .nominating)
    (prompt : e.Prompt) (enough : Engine.pending e.engine pid < n) :
    Settles pid now (.racing e h) ((decided h (e.drain pid now n h.entropy)).read now) := by
  induction n generalizing e h with
  | zero => omega
  | succ n ih =>
    rw [Election.drain, if_neg (not_not.2 phase)]
    rcases hf : Engine.processFrame pid now e.engine h.entropy with ⟨fault | _ | o, engine, s⟩
    · have refused : (racing e h).turn pid now = some .failed := by simp only [turn, hf]
      exact .turn refused (.rest rfl)
    · obtain ⟨rfl, rfl⟩ := Exchange.processFrame_none hf
      have still : decided h (.ok [], e, h.entropy) = .racing e h := by simp [decided]
      dsimp only
      rw [still]
      exact .rest (by simp only [turn, hf])
    · obtain ⟨old, new, used, deed, turned⟩ := Exchange.turned_of_processFrame hf
      have fewer := Engine.Finite.pending_lt pid now e.engine h.entropy o engine s hf
      have prompt := prompt.turned turned
      dsimp only
      rcases ha : Election.accept pid o (Election.onReady pid now) { e with engine } with
        ⟨failure | first, e₁⟩
      · have refused : (racing e h).turn pid now = some .failed := by
          simp only [turn, hf, ha, decided]
        exact .turn refused (.rest rfl)
      · have taken : (racing e h).turn pid now = some (decided h (.ok first, e₁, s)) := by
          simp only [turn, hf, ha]
        refine .turn taken ?_
        have follows := Election.follows_accept prompt phase turned.knows ha
        rcases follows.ended with ⟨quiet, open_⟩ | ⟨hash, wins, ended⟩
        · have pending : Engine.pending e₁.engine pid = Engine.pending engine pid :=
            congrArg (· / Limit.lengthSize) follows.buffered
          have first_decided : decided h (.ok first, e₁, s) =
              .racing e₁ { h with actions := h.actions ++ first, entropy := s } := by
            simp [decided, quiet]
          dsimp only
          rw [first_decided, decided_append quiet _ _ _ s]
          exact ih (h := { h with actions := h.actions ++ first, entropy := s }) open_
            (follows.prompt prompt) (by omega)
        · have won : decided h (.ok first, e₁, s) = .reading (.won e₁.engine pid hash)
              { h with actions := h.actions ++ first, entropy := s } := by simp [decided, wins]
          dsimp only
          rw [Election.drain_of_over (by simp [ended])]
          simp only [Except.map, List.append_nil]
          rw [won]
          exact settles_read ..

def via (g : Exchange S → Exchange S) : Reception S → Reception S
  | .racing e h => .racing (e.via g) h
  | .reading x h => .reading (x.via g) h
  | .failed => .failed

def push (pid : PathId) (more : Bytes) : Reception S → Reception S := via (Exchange.push pid more)

def timeless : Reception S → Reception S := via Exchange.timeless

theorem Along.via {r : Reception S} (h : Along pid r) {g : Exchange S → Exchange S}
    (blind : Exchange.Blind pid g) : Along pid (r.via g) := by
  cases h with
  | racing phase prompt knows => exact .racing phase (prompt.via blind) (blind.knows _ knows)
  | reading knows => exact .reading (blind.knows _ knows)
  | failed => exact .failed

theorem Along.turn {r r' : Reception S} (h : Along pid r) (turn : r.turn pid now = some r') :
    Along pid r' := by
  cases h with
  | @racing e h phase prompt knows =>
    unfold Reception.turn at turn
    rcases hf : Engine.processFrame pid now e.engine h.entropy with ⟨fault | _ | o, engine, s⟩ <;>
      simp only [hf] at turn
    · obtain rfl := Option.some.inj turn
      exact .failed
    · cases turn
    · obtain ⟨old, new, used, deed, turned⟩ := Exchange.turned_of_processFrame hf
      have prompt := prompt.turned turned
      obtain rfl := Option.some.inj turn
      rcases ha : Election.accept pid o (Election.onReady pid now) { e with engine } with
        ⟨failure | actions, e₁⟩
      · exact .failed
      · exact along_decided (Election.follows_accept prompt phase turned.knows ha) prompt
  | @reading engine hash h knows =>
    rw [turn_won] at turn
    rcases hp : Engine.processFrame pid now engine h.entropy with ⟨answer, engine', s'⟩
    simp only [hp] at turn
    rcases hd : delivery answer with _ | _ | data <;> simp [hd] at turn <;> subst turn
    · exact .failed
    · obtain ⟨old, new, used, deed, turned⟩ := Exchange.turned_of_processFrame
        (hp.trans (by rw [delivery_payload hd]))
      exact .reading turned.knows
  | failed => cases turn

theorem Along.settles {r r' : Reception S} (h : Along pid r) (settles : Settles pid now r r') :
    Along pid r' := by
  induction settles with
  | rest => exact h
  | turn first _ ih => exact ih (h.turn first)

/-- A chunk has the effect of the frames that it completes. -/
theorem settles_feed {r : Reception S} (h : Along pid r) (chunk : Bytes) (now : Nat) :
    Settles pid now (r.push pid chunk) (r.feed pid chunk now) := by
  cases h with
  | @racing e h phase prompt knows =>
    have added : Engine.addChunk pid chunk e.engine = (.ok (), e.engine.push pid chunk) :=
      knows.addChunk chunk
    have settles : Settles pid now (.racing (e.via (Exchange.push pid chunk)) h) _ :=
      settles_drain phase (prompt.via (Exchange.blind_push pid chunk)) (Nat.lt_succ_self _)
    have drained : e.onChunk pid chunk now h.entropy = (e.via (Exchange.push pid chunk)).drain pid now
        (Engine.pending (e.engine.push pid chunk) pid + 1) h.entropy := by
      rw [Election.onChunk, added]
      rfl
    have handled : decided h (e.handle (.frame pid chunk) now h.entropy) =
        decided h (e.onChunk pid chunk now h.entropy) := by
      unfold Election.handle
      rw [if_neg (not_not.2 phase)]
      dsimp only
      rcases e.onChunk pid chunk now h.entropy with ⟨failure | actions, e', s'⟩ <;> rfl
    show Settles pid now _ ((decided h (e.handle (.frame pid chunk) now h.entropy)).read now)
    rw [handled, drained]
    exact settles
  | @reading engine hash h knows =>
    have added : Engine.addChunk pid chunk engine = (.ok (), engine.push pid chunk) :=
      knows.addChunk chunk
    have fed : Session.feed ⟨{ Race.sole pid with slot := some (pid, chunk) },
        .connected engine pid hash⟩ = (some (.ok (some ())), .won (engine.push pid chunk) pid hash) := by
      simp only [Session.feed, Race.read_sole, added]
      rfl
    unfold feed
    simp only [Session.won, fed]
    exact settles_read ..
  | failed => exact .rest rfl

/-! ### Bytes behind a frame, and the clock -/

theorem decided_via (g : Exchange S → Exchange S) (h : Harvest) (result : Except Failure (List Action))
    (e : Election (Exchange S)) (s : Entropy) :
    decided h (result, e.via g, s) = (decided h (result, e, s)).via g := by
  cases result with
  | error failure => rfl
  | ok actions =>
    simp only [decided]
    cases winners actions <;> rfl

/-- The effect of a frame does not depend on the bytes behind it. -/
theorem Along.turn_push {r r' : Reception S} (h : Along pid r) (turn : r.turn pid now = some r')
    (more : Bytes) : (r.push pid more).turn pid now = some (r'.push pid more) := by
  have blind := Exchange.blind_push (S := S) pid more
  cases h with
  | @racing e h phase prompt knows =>
    simp only [push, Reception.via, Reception.turn] at turn ⊢
    rcases hf : Engine.processFrame pid now e.engine h.entropy with ⟨fault | _ | o, engine, s⟩ <;>
      simp only [hf] at turn
    · have refused := Exchange.processFrame_push_error hf more
      rcases hp : Engine.processFrame pid now (e.via (Exchange.push pid more)).engine h.entropy with
        ⟨answer, engine', s'⟩
      obtain rfl : answer = .error fault := (congrArg Prod.fst hp).symm.trans refused
      obtain rfl := Option.some.inj turn
      rfl
    · cases turn
    · obtain ⟨old, new, used, deed, turned⟩ := Exchange.turned_of_processFrame hf
      have prompt := prompt.turned turned
      have pushed : Engine.processFrame pid now (e.via (Exchange.push pid more)).engine h.entropy =
          (.ok (some o), engine.push pid more, s) := Exchange.processFrame_push_some hf more
      have accepted := Election.accept_via prompt blind (rfl : o.timeless = o.timeless) now now
      obtain rfl := Option.some.inj turn
      simp only [pushed]
      exact congrArg some ((congrArg (fun a => decided h (a.1, a.2, s)) accepted).trans
        (decided_via ..))
  | @reading engine hash h knows =>
    have left : push pid more (Reception.reading (.won engine pid hash) h) =
        .reading (.won (engine.push pid more) pid hash) h := rfl
    rw [left, turn_won]
    rw [turn_won] at turn
    rcases hf : Engine.processFrame pid now engine h.entropy with ⟨fault | _ | o, engine', s⟩ <;>
      simp only [hf] at turn
    · have refused := Exchange.processFrame_push_error hf more
      rcases hp : Engine.processFrame pid now (engine.push pid more) h.entropy with ⟨answer, engine'', s'⟩
      obtain rfl : answer = .error fault := (congrArg Prod.fst hp).symm.trans refused
      obtain rfl := Option.some.inj turn
      rfl
    · cases turn
    · have pushed : Engine.processFrame pid now (engine.push pid more) h.entropy =
          (.ok (some o), engine'.push pid more, s) := Exchange.processFrame_push_some hf more
      rw [pushed]
      rcases hd : delivery (.ok (some o)) with _ | _ | data <;> simp [hd] at turn <;> subst turn <;> rfl
  | failed => cases turn

theorem Along.settles_push {r r' r'' : Reception S} {more : Bytes} (h : Along pid r)
    (first : Settles pid now r r') (others : Settles pid now (r'.push pid more) r'') :
    Settles pid now (r.push pid more) r'' := by
  induction first with
  | rest => exact others
  | turn turn _ ih => exact .turn (h.turn_push turn more) (ih (h.turn turn) others)

theorem Along.turn_timeless {r : Reception S} (h : Along pid r) (now : Nat) :
    r.timeless.turn pid 0 = (r.turn pid now).map timeless := by
  cases h with
  | @racing e h phase prompt knows =>
    have answer : Engine.processFrame pid 0 (e.via Exchange.timeless).engine h.entropy = _ :=
      Exchange.processFrame_timeless e.engine pid now h.entropy
    simp only [timeless, Reception.via, Reception.turn, answer]
    have same : e.engine.processFrame pid now h.entropy =
        Engine.processFrame pid now e.engine h.entropy := rfl
    rw [same]
    rcases hf : Engine.processFrame pid now e.engine h.entropy with ⟨fault | _ | o, engine, s⟩
    · rfl
    · rfl
    · obtain ⟨old, new, used, deed, turned⟩ := Exchange.turned_of_processFrame hf
      have prompt := prompt.turned turned
      have accepted := Election.accept_via prompt (Exchange.blind_timeless pid) o.timeless_timeless now 0
      exact congrArg some ((congrArg (fun a => decided h (a.1, a.2, s)) accepted).trans
        (decided_via ..))
  | @reading engine hash h knows =>
    have left : timeless (Reception.reading (.won engine pid hash) h) =
        .reading (.won engine.timeless pid hash) h := rfl
    have answer : Engine.processFrame pid 0 engine.timeless h.entropy = _ :=
      Exchange.processFrame_timeless engine pid now h.entropy
    rw [left, turn_won, turn_won, answer, delivery_timeless]
    have same : engine.processFrame pid now h.entropy = Engine.processFrame pid now engine h.entropy := rfl
    rw [same]
    rcases delivery (Engine.processFrame pid now engine h.entropy).1 with _ | _ | data <;> rfl
  | failed => rfl

theorem Along.settles_timeless {r r' : Reception S} (h : Along pid r) (settles : Settles pid now r r') :
    Settles pid 0 r.timeless r'.timeless := by
  induction settles with
  | rest last => exact .rest (by rw [h.turn_timeless now, last]; rfl)
  | turn first _ ih => exact .turn (by rw [h.turn_timeless now, first]; rfl) (ih (h.turn first))

theorem via_via (f g : Exchange S → Exchange S) (r : Reception S) :
    (r.via f).via g = r.via (g ∘ f) := by
  cases r with
  | racing | failed => rfl
  | reading x h =>
    obtain ⟨race, state⟩ := x
    cases state <;> rfl

theorem timeless_push (r : Reception S) (pid : PathId) (more : Bytes) :
    (r.push pid more).timeless = r.timeless.push pid more := by
  have same : Exchange.timeless ∘ Exchange.push (S := S) pid more =
      Exchange.push pid more ∘ Exchange.timeless := by
    funext x
    simp only [Function.comp, Exchange.push, Exchange.addChunk_timeless]
  simp only [timeless, push, via_via, same]

theorem push_push (r : Reception S) (pid : PathId) (a b : Bytes) :
    (r.push pid a).push pid b = r.push pid (a ++ b) := by
  have same : Exchange.push pid b ∘ Exchange.push (S := S) pid a = Exchange.push pid (a ++ b) :=
    funext fun x => x.push_push pid a b
  simp only [push, via_via, same]

/-! ### All chunks -/

theorem outcome?_timeless (r : Reception S) : r.timeless.outcome? = r.outcome? := by
  cases r <;> rfl

theorem outcome?_push (r : Reception S) (pid : PathId) (more : Bytes) :
    (r.push pid more).outcome? = r.outcome? := by
  cases r <;> rfl

theorem Along.rest_push_nil {r : Reception S} (h : Along pid r) (rest : r.turn pid now = none) :
    (r.push pid []).turn pid now = none := by
  cases h with
  | @racing e h phase prompt knows =>
    simp only [push, Reception.via, Reception.turn] at rest ⊢
    rcases hf : Engine.processFrame pid now e.engine h.entropy with ⟨fault | _ | o, engine, s⟩ <;>
      simp only [hf] at rest
    · cases rest
    · have still := Exchange.processFrame_push_nil hf
      rcases hp : Engine.processFrame pid now (e.via (Exchange.push pid [])).engine h.entropy with
        ⟨answer, engine', s'⟩
      obtain rfl : answer = .ok none := (congrArg Prod.fst hp).symm.trans still
      rfl
    · cases rest
  | @reading engine hash h knows =>
    have left : push pid [] (Reception.reading (.won engine pid hash) h) =
        .reading (.won (engine.push pid []) pid hash) h := rfl
    rw [turn_won, Option.map_eq_none_iff] at rest
    rw [left, turn_won, Option.map_eq_none_iff]
    rcases hf : Engine.processFrame pid now engine h.entropy with ⟨answer, engine', s⟩
    rw [hf] at rest
    obtain rfl := delivery_none rest
    have still : (Engine.processFrame pid now (engine.push pid []) h.entropy).1 = .ok none :=
      Exchange.processFrame_push_nil hf
    rw [still]
    rfl
  | failed => rfl

/-- The effect of several chunks is that of their bytes together. -/
theorem Along.settles_run {r : Reception S} (h : Along pid r) (rest : r.timeless.turn pid 0 = none)
    (cut : List (Bytes × Nat)) :
    ∃ r', Settles pid 0 (r.timeless.push pid (cut.map Prod.fst).flatten) r' ∧
      (r.run pid cut).outcome? = r'.outcome? := by
  induction cut generalizing r with
  | nil =>
    have along : Along pid r.timeless := h.via (Exchange.blind_timeless pid)
    refine ⟨_, .rest (along.rest_push_nil rest), ?_⟩
    rw [outcome?_push, outcome?_timeless]
    rfl
  | cons c cut ih =>
    have fed := settles_feed h c.1 c.2
    have pushed : Along pid (r.push pid c.1) := h.via (Exchange.blind_push pid c.1)
    have first := pushed.settles_timeless fed
    rw [timeless_push] at first
    obtain ⟨r', others, same⟩ := ih (pushed.settles fed) first.at_rest
    have along : Along pid r.timeless := h.via (Exchange.blind_timeless pid)
    refine ⟨r', ?_, same⟩
    rw [List.map_cons, List.flatten_cons, ← push_push]
    exact (along.via (Exchange.blind_push pid c.1)).settles_push first others

/-- The earlier actions and payloads are a prefix of the later ones. -/
def Grows (r r' : Reception S) : Prop :=
  ∀ after ∈ r'.outcome?, ∃ before ∈ r.outcome?, before.1 <+: after.1 ∧ before.2 <+: after.2

theorem Grows.refl (r : Reception S) : Grows r r :=
  fun after ha => ⟨after, ha, List.prefix_rfl, List.prefix_rfl⟩

theorem Grows.trans {a b c : Reception S} (hab : Grows a b) (hbc : Grows b c) : Grows a c := by
  intro after hc
  obtain ⟨between, hb, actions, payloads⟩ := hbc after hc
  obtain ⟨before, ha, actions', payloads'⟩ := hab between hb
  exact ⟨before, ha, actions'.trans actions, payloads'.trans payloads⟩

theorem grows_taken (x : Session (Exchange S)) (h : Harvest)
    (t : Except Failure (List Bytes) × Session (Exchange S) × Entropy) :
    Grows (reading x h) (taken h t) := by
  rcases t with ⟨failure | data, x', s⟩
  · exact nofun
  · intro after ha
    obtain rfl := Option.some.inj ha
    exact ⟨_, rfl, List.prefix_rfl, List.prefix_append ..⟩

theorem grows_read (r : Reception S) (now : Nat) : Grows r (r.read now) := by
  cases r with
  | reading x h => exact grows_taken x h _
  | racing | failed => exact .refl _

theorem grows_decided (e : Election (Exchange S)) (h : Harvest)
    (d : Except Failure (List Action) × Election (Exchange S) × Entropy) :
    Grows (racing e h) (decided h d) := by
  rcases d with ⟨failure | actions, e', s⟩
  · exact nofun
  · unfold decided
    dsimp only
    rcases winners actions with _ | ⟨w, others⟩ <;>
    · intro after ha
      obtain rfl := Option.some.inj ha
      exact ⟨_, rfl, List.prefix_append .., List.prefix_rfl⟩

theorem grows_feed (r : Reception S) (pid : PathId) (chunk : Bytes) (now : Nat) :
    Grows r (r.feed pid chunk now) := by
  cases r with
  | racing e h => exact (grows_decided e h _).trans (grows_read _ now)
  | reading x h =>
    have same (y : Session (Exchange S)) : Grows (reading x h) (reading y h) :=
      fun after ha => ⟨after, ha, List.prefix_rfl, List.prefix_rfl⟩
    unfold feed
    dsimp only
    split
    · exact (same _).trans (grows_read _ now)
    · exact nofun
  | failed => exact nofun

theorem grows_run (r : Reception S) (pid : PathId) (cut : List (Bytes × Nat)) :
    Grows r (r.run pid cut) := by
  induction cut generalizing r with
  | nil => exact .refl r
  | cons c cut ih => exact (grows_feed r pid c.1 c.2).trans (ih _)

theorem along_start {setup : Setup} {x : Exchange S} (hx : Exchange.new S setup = .ok x)
    (known : pid ∈ setup.pids) {policy : Policy} (prompt : setup.isNominator = false ∨ policy = .eager)
    (now : Nat) (s : Entropy) :
    ∃ frames e s', (Election.new x policy).start now s = (.ok frames, e, s') ∧
      ∀ h, Along pid (.racing e h) ∧ ∀ now, turn pid now (.racing e h) = none := by
  have waiting := Exchange.waiting_new hx
  obtain ⟨-, rfl⟩ := Exchange.new_ok hx
  obtain ⟨frames, x', s', answer, device, -, strands⟩ := waiting.initialFrames now s
  have inbox : ∃ stage, x'.strand? pid = some ⟨Reassembly.empty, stage⟩ := by
    rcases strands pid with ⟨none, -⟩ | ⟨stage, -, some, -⟩
    · have listed := (Exchange.lookup_fresh (setup.pids.mergeSort (· ≤ ·)) pid).symm.trans none
      simp [known] at listed
    · exact ⟨stage, some⟩
  obtain ⟨stage, hs⟩ := inbox
  refine ⟨_, _, s', Election.start_of_initialFrames answer policy, fun h => ⟨.racing rfl ?_ ?_, ?_⟩⟩
  · exact prompt.imp_left (congrArg Device.isNominator device).trans
  · exact congrArg Option.isSome hs
  · intro now
    have quiet : Engine.processFrame pid now x' h.entropy = (.ok none, x', h.entropy) := by
      simp only [Engine.processFrame, Exchange.processFrame, hs]
      rfl
    simp only [turn, quiet]

/-- The chunks in which the bytes of a path arrive, and their times, make no difference. If the engine
does not nominate, or nominates the first path that is ready, two cuts of the same bytes lead to the
same actions and payloads, unless something is refused, which happens in both or in neither. The actions
and payloads after any of the chunks are a prefix of those at the end. -/
theorem same_however_cut {setup : Setup} {x : Exchange S} (hx : Exchange.new S setup = .ok x)
    (known : pid ∈ setup.pids) {policy : Policy} (prompt : setup.isNominator = false ∨ policy = .eager)
    (now : Nat) (s : Entropy) :
    ∃ frames e s', (Election.new x policy).start now s = (.ok frames, e, s') ∧
      ∀ c d : List (Bytes × Nat), let r : Reception S := .racing e ⟨[], [], s'⟩
        ((c.map Prod.fst).flatten = (d.map Prod.fst).flatten →
          (r.run pid c).outcome? = (r.run pid d).outcome?) ∧
        ∀ after ∈ (r.run pid (c ++ d)).outcome?, ∃ before ∈ (r.run pid c).outcome?,
          before.1 <+: after.1 ∧ before.2 <+: after.2 := by
  obtain ⟨frames, e, s', started, start⟩ := along_start hx known prompt now s
  refine ⟨frames, e, s', started, fun c d => ⟨fun same => ?_, ?_⟩⟩
  · obtain ⟨along, rest⟩ := start ⟨[], [], s'⟩
    have rest : (timeless (.racing e ⟨[], [], s'⟩)).turn pid 0 = none := by
      rw [along.turn_timeless 0, rest 0]
      rfl
    obtain ⟨rc, hc, oc⟩ := along.settles_run rest c
    obtain ⟨rd, hd, od⟩ := along.settles_run rest d
    rw [same] at hc
    rw [oc, od, hc.deterministic hd]
  · have parts : run pid (c ++ d) (.racing e ⟨[], [], s'⟩ : Reception S) =
        run pid d (run pid c (.racing e ⟨[], [], s'⟩)) := List.foldl_append
    rw [parts]
    exact grows_run _ pid d

/-- What a responder sends on its only path: hello, auth and two payloads. -/
def plainStream : Bytes :=
  let hello := Pair.plainFrame (Suite.plain.authKey (Octets.zero 32) .responder) .responder
    (.hello (Pair.plainChallenge 1) (Pair.plainSecret 1))
  let lane := Lane.start Pair.plainKeys.responder 7 (.outbound .responder)
  hello ++ lane.framed Suite.plain (.auth (Pair.plainChallenge 2)) ++
    lane.advance.framed Suite.plain (.ulp [1, 2]) ++ lane.advance.advance.framed Suite.plain (.ulp [])

/-- The stream in one chunk, and byte by byte at decreasing times. -/
theorem same_however_cut_plain :
    let x := Pair.plainPair.engine .initiator
    let started := (Election.new x .eager).start 8 (.cycle [2])
    let r : Reception Suite.plain := .racing started.2.1 ⟨[], [], started.2.2⟩
    let authHello := Pair.plainFrame (Suite.plain.authKey (Octets.zero 32) .initiator) .initiator
      (.authHello (Pair.plainChallenge 1) (Pair.plainChallenge 2) (Pair.plainSecret 2))
    let nomination := Pair.plainFrame Pair.plainKeys.initiator .initiator .nominate
    Exchange.new Suite.plain ⟨.initiator, true, Octets.zero 32, [7]⟩ = .ok x ∧
    (r.run 7 (plainStream.map fun b => ([b], 3))).outcome? =
      some ([.send 7 authHello, .send 7 nomination, .nominated 7 Pair.plainKeys.hash], [[1, 2], []]) := by
  intro x started r authHello nomination
  have hx : Exchange.new Suite.plain ⟨.initiator, true, Octets.zero 32, [7]⟩ = .ok x := by
    simp [Exchange.new, x, Pair.plainPair]
  have known : (7 : PathId) ∈ ([7] : List PathId) := by decide
  have eager : true = false ∨ Policy.eager = .eager := .inr rfl
  have whole : (r.run 7 [(plainStream, 5)]).outcome? =
      some ([.send 7 authHello, .send 7 nomination, .nominated 7 Pair.plainKeys.hash], [[1, 2], []]) := by
    decide +kernel
  obtain ⟨frames, e, s, answer, same⟩ := same_however_cut hx known eager 8 (.cycle [2])
  have begun : r = .racing e ⟨[], [], s⟩ := by simp only [r, started, answer]
  have bytes : ((plainStream.map fun b => ([b], 3)).map Prod.fst).flatten = plainStream := by
    simp [Function.comp_def, ← List.flatMap_def]
  refine ⟨hx, ?_⟩
  rw [← whole, begun]
  exact (same _ [(plainStream, 5)]).1 (bytes.trans (by simp))

end Reception

end PathRace
