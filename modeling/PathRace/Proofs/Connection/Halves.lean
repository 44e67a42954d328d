import PathRace.Proofs.Race.Flow
import PathRace.Session

/-! How the two halves of a connection use its engine and its race, for any engine: `send` makes one
frame of a payload; `recv` polls the engine and feeds it the next chunk. The nomination establishes
`Joined` (`Joined.act`) and these calls keep it; a failure of one of them leaves the signal raised
(`Sends`, `Takes`, `Feeds`). -/

namespace PathRace

/-- The engine has rejected a frame, or has broken its contract. -/
def Failure.isRejection : Failure → Bool
  | .engine .. | .contractViolation .. => true
  | _ => false

/-- The signal is raised whenever it was before, with the same cause. -/
structure Signal.Grows (s s' : Signal) : Prop where
  cause : ∀ c, s.cause = some c → s'.cause = some c
  stopped : s.stopped = true → s'.stopped = true

namespace Signal.Grows

theorem refl (s : Signal) : s.Grows s := ⟨fun _ h => h, id⟩

theorem raise (c : Cause) (s : Signal) : s.Grows (s.raise c).2 := by
  cases hc : s.cause with
  | none => exact ⟨fun d hd => by simp [hc] at hd, fun _ => by rw [raise_of_none hc]⟩
  | some d =>
    rw [raise_of_cause hc]
    exact refl s

theorem cancel (s : Signal) : s.Grows s.cancel := ⟨fun _ h => h, fun _ => rfl⟩

end Signal.Grows

theorem Signal.Later.grows {s s' : Signal} (h : s.Later s') : s.Grows s' := by
  rcases h with rfl | ⟨c, rfl⟩
  · exact .refl _
  · exact .raise c s

def Signal.Sound (s : Signal) : Prop := s.cause.isSome = true → s.stopped = true

namespace Signal.Sound

variable {s : Signal}

theorem later {s' : Signal} (h : s.Sound) (k : s.Later s') : s'.Sound := by
  rcases k with rfl | ⟨c, rfl⟩
  · exact h
  · intro _
    cases hc : s.cause with
    | none => rw [raise_of_none hc]
    | some d =>
      rw [raise_of_cause hc]
      exact h (by simp [hc])

theorem heard (h : s.Sound) {c : Cause} (hc : s.cause = some c) : s.heard = some c := by
  simp [Signal.heard, h (by simp [hc]), hc]

theorem raised (h : s.Sound) (c : Cause) : (s.raise c).2.stopped = true :=
  h.later (.raised c s) (by simp [cause_raise])

end Signal.Sound

namespace Race

variable {r : Race} {pid : PathId}

theorem isHalting_of_grows {r' : Race} (h : r.signal.Grows r'.signal) (halting : r.isHalting = true) :
    r'.isHalting = true := by
  rw [isHalting_eq] at halting ⊢
  exact h.stopped halting

theorem isHalting_raise_of_sound (h : r.signal.Sound) (c : Cause) : (r.raise c).isHalting = true := by
  rw [isHalting_eq]
  exact h.raised c

/-! ### Reads of the winner -/

theorem winner?_read (h : r.winner? = some pid) : r.read.2.winner? = some pid := by
  unfold read
  split
  · rename_i hc
    simpa [winner?, hc] using h
  · split
    · exact h
    · split
      · dsimp only
        split_ifs <;> exact h
      · split_ifs <;> exact h
  · exact h

theorem isHalting_of_read (sound : r.signal.Sound) (won : r.winner? = some pid) {failure : Failure}
    (failed : r.read.1 = some (.error failure)) : r.read.2.isHalting = true := by
  unfold read at failed ⊢
  split
  · rename_i hc
    simp [hc] at failed
  · rename_i w reader writer hc
    simp only [hc] at failed
    cases heard : r.signal.heard with
    | some cause => simp [isHalting, heard]
    | none =>
      simp only [heard] at failed
      cases slot : r.slot with
      | some e =>
        simp only [slot] at failed ⊢
        split_ifs with same
        · simp [same] at failed
        · exact isHalting_raise_of_sound (r := { r with slot := none }) sound _
      | none =>
        simp only [slot] at failed
        split_ifs at failed with dry
        cases cause : r.signal.cause with
        | none => simp [cause] at failed
        | some c => simp [sound.heard cause] at heard
  · rename_i kept other
    cases hc : r.consumer with
    | nominated w backlog reader writer =>
      cases backlog with
      | nil => exact (other w reader writer hc).elim
      | cons chunk rest => exact (kept w chunk rest reader writer hc).elim
    | racing | gone => simp [winner?, hc] at won

/-- After the signal is heard, a read gives what is left in the backlog and then fails with the cause. -/
theorem read_of_halting (won : r.winner? = some pid) {cause : Cause}
    (heard : r.signal.heard = some cause) :
    (∃ chunk rest, r.backlogOf pid = chunk :: rest ∧ r.read.1 = some (.ok (some chunk)) ∧
      r.read.2.backlogOf pid = rest) ∨
    (r.backlogOf pid = [] ∧ r.read = (some (.error (.ofCause cause)), r)) := by
  unfold winner? at won
  cases hc : r.consumer with
  | racing | gone => simp [hc] at won
  | nominated w backlog reader writer =>
    obtain rfl : w = pid := by simpa [hc] using won
    cases backlog with
    | nil => exact .inr ⟨by simp [backlogOf, hc], by simp [read, hc, heard]⟩
    | cons chunk rest =>
      exact .inl ⟨chunk, rest, by simp [backlogOf, hc], by simp [read, hc], by simp [read, hc, backlogOf]⟩

end Race

/-! ### A session past its nomination -/

structure Session.Joined {E : Type} (x : Session E) (engine : E) (pid : PathId) : Prop where
  state : ∃ hash, x.state = .connected engine pid hash
  winner : x.race.winner? = some pid
  sound : x.race.signal.Sound

namespace Session

variable {E : Type} [Engine E] {x : Session E} {engine : E} {pid : PathId}

/-- The possible results of a `send`. -/
inductive Sends (x : Session E) (engine : E) (pid : PathId) (data : Bytes) :
    Except Failure (List Bytes) → Session E → Prop
  | refused {cause : Cause} (raised : x.race.signal.cause = some cause) :
      Sends x engine pid data (.error (.ofCause cause)) x
  | sent {frame : Bytes} {hash : PathHash} (quiet : x.race.signal.cause = none)
      (made : (Engine.createFrame data engine).1 = .ok (Outcome.frame frame)) :
      Sends x engine pid data (.ok (Bytes.chunks Limit.piece frame))
        { x with state := .connected (Engine.createFrame data engine).2 pid hash }
  | lost {failure : Failure} {hash : PathHash} (quiet : x.race.signal.cause = none)
      (rejected : failure.isRejection = true) : Sends x engine pid data (.error failure)
        ⟨x.race.raise failure.cause, .connected (Engine.createFrame data engine).2 pid hash⟩

def payload? : Except EngineFault (Option Outcome) → Option Bytes
  | .ok (some ⟨none, none, some data⟩) => some data
  | _ => none

/-- The possible results of asking the engine for a payload. -/
inductive Takes (x : Session E) (engine : E) (pid : PathId) (now : Nat) (s : Entropy) :
    Option (Except Failure Bytes) → Session E → Prop
  | nothing {hash : PathHash} (none_yet : payload? (Engine.processFrame pid now engine s).1 = none) :
      Takes x engine pid now s none
        { x with state := .connected (Engine.processFrame pid now engine s).2.1 pid hash }
  | payload {data : Bytes} {hash : PathHash}
      (yielded : payload? (Engine.processFrame pid now engine s).1 = some data) :
      Takes x engine pid now s (some (.ok data))
        { x with state := .connected (Engine.processFrame pid now engine s).2.1 pid hash }
  | lost {failure : Failure} {hash : PathHash}
      (none_yet : payload? (Engine.processFrame pid now engine s).1 = none)
      (rejected : failure.isRejection = true) : Takes x engine pid now s (some (.error failure))
      ⟨x.race.raise failure.cause, .connected (Engine.processFrame pid now engine s).2.1 pid hash⟩

/-- The possible results of feeding the engine. -/
inductive Feeds (x : Session E) (engine : E) (pid : PathId) :
    Option (Except Failure (Option Unit)) → Session E → Prop
  | waits {race : Race} (read : x.race.read = (none, race)) : Feeds x engine pid none { x with race }
  | stopped {failure : Failure} {race : Race}
      (read : x.race.read = (some (.error failure), race)) :
      Feeds x engine pid (some (.error failure)) { x with race }
  | ended {race : Race} (read : x.race.read = (some (.ok none), race)) :
      Feeds x engine pid (some (.ok none)) { x with race }
  | fed {chunk : Bytes} {race : Race} {hash : PathHash}
      (read : x.race.read = (some (.ok (some chunk)), race)) : Feeds x engine pid (some (.ok (some ())))
        ⟨race, .connected (Engine.addChunk pid chunk engine).2 pid hash⟩
  | lost {chunk : Bytes} {race : Race} {failure : Failure} {hash : PathHash}
      (read : x.race.read = (some (.ok (some chunk)), race)) (rejected : failure.isRejection = true) :
      Feeds x engine pid (some (.error failure))
        ⟨race.raise failure.cause, .connected (Engine.addChunk pid chunk engine).2 pid hash⟩

namespace Joined

omit [Engine E] in
theorem act {election : Election E} {todo : List Action} {winner : Option (PathId × PathHash)}
    (sound : x.race.signal.Sound) {hash : PathHash}
    (won : (x.act election todo winner).state = .connected engine pid hash) :
    (x.act election todo winner).Joined engine pid := by
  unfold Session.act at won ⊢
  split at won
  · split at won <;> cases won
  · cases won
  · cases won
  · rename_i w hash'
    rcases Race.nominate_cases w x.race with ⟨pids, -, -, -, he⟩ | ⟨pids, -, -, he⟩ | ⟨-, he⟩ <;>
      simp only [he] at won ⊢
    · cases won
      exact ⟨⟨hash, rfl⟩, rfl, sound⟩
    · cases won
    · cases won

theorem sends (h : x.Joined engine pid) (data : Bytes) :
    Sends x engine pid data (x.send data).1 (x.send data).2 := by
  obtain ⟨⟨hash, state⟩, -, -⟩ := h
  simp only [Session.send, state]
  cases cause : x.race.signal.cause with
  | some cause' => exact .refused cause
  | none =>
    have lost (failure : Failure) (rejected : failure.isRejection = true) :
        Sends x engine pid data (.error failure) ⟨x.race.raise failure.cause,
          .connected (Engine.createFrame data engine).2 pid hash⟩ := .lost cause rejected
    rcases made : Engine.createFrame data engine with ⟨fault | o, engine'⟩ <;>
      simp only [made] at lost <;> dsimp only
    · exact lost _ rfl
    · split
      · rename_i frame same
        obtain rfl := Except.ok.inj same
        have sent : Sends x engine pid data (.ok (Bytes.chunks Limit.piece frame)) { x with
            state := .connected (Engine.createFrame data engine).2 pid hash } :=
          .sent cause (congrArg Prod.fst made)
        rwa [made] at sent
      · exact lost _ rfl
      · rename_i same
        cases same

theorem takes (h : x.Joined engine pid) (now : Nat) (s : Entropy) :
    Takes x engine pid now s (x.take now s).1 (x.take now s).2.1 := by
  obtain ⟨⟨hash, state⟩, -, -⟩ := h
  simp only [Session.take, state]
  split
  · rename_i answer
    exact .nothing (by rw [answer]; rfl)
  · rename_i data answer
    exact .payload (by rw [answer]; rfl)
  · rename_i o other answer
    refine .lost ?_ rfl
    rw [answer]
    unfold payload?
    split
    · rename_i data same
      cases same
      exact (other data rfl).elim
    · rfl
  · rename_i fault answer
    exact .lost (by rw [answer]; rfl) rfl

theorem feeds (h : x.Joined engine pid) : Feeds x engine pid x.feed.1 x.feed.2 := by
  obtain ⟨⟨hash, state⟩, -, -⟩ := h
  simp only [Session.feed, state]
  rcases read : x.race.read with ⟨_ | failure | _ | chunk, race⟩ <;> dsimp only
  · exact state ▸ Feeds.waits read
  · exact state ▸ Feeds.stopped read
  · exact state ▸ Feeds.ended read
  · split
    · exact .fed read
    · exact .lost read rfl

end Joined

/-- The session still has winner `pid`, and its signal is raised no less than before. -/
structure Stays (x x' : Session E) (pid : PathId) : Prop where
  joined : ∃ engine, x'.Joined engine pid
  grows : x.race.signal.Grows x'.race.signal

omit [Engine E] in
theorem Joined.stays (h : x.Joined engine pid) : x.Stays x pid := ⟨⟨engine, h⟩, .refl _⟩

omit [Engine E] in
theorem Joined.stays_with (h : x.Joined engine pid) (race : Race) (engine' : E) (hash : PathHash)
    (winner : race.winner? = some pid) (later : x.race.signal.Later race.signal) :
    x.Stays ⟨race, .connected engine' pid hash⟩ pid :=
  ⟨⟨engine', ⟨hash, rfl⟩, winner, h.sound.later later⟩, later.grows⟩

omit [Engine E] in
theorem Joined.stays_race (h : x.Joined engine pid) {race : Race} (winner : race.winner? = some pid)
    (later : x.race.signal.Later race.signal) : x.Stays { x with race } pid := by
  obtain ⟨hash, state⟩ := h.state
  have stays := h.stays_with race engine hash winner later
  rwa [← state] at stays

variable {x' : Session E} {data : Bytes} {failure : Failure}

theorem Sends.stays {answer : Except Failure (List Bytes)} (k : Sends x engine pid data answer x')
    (h : x.Joined engine pid) : x.Stays x' pid := by
  cases k with
  | refused => exact h.stays
  | sent => exact h.stays_with _ _ _ h.winner (.refl _)
  | lost => exact h.stays_with (x.race.raise _) _ _ h.winner (.raised _ _)

theorem Takes.stays {now : Nat} {s : Entropy} {answer : Option (Except Failure Bytes)}
    (k : Takes x engine pid now s answer x') (h : x.Joined engine pid) : x.Stays x' pid := by
  cases k with
  | nothing | payload => exact h.stays_with _ _ _ h.winner (.refl _)
  | lost => exact h.stays_with (x.race.raise _) _ _ h.winner (.raised _ _)

theorem Feeds.stays {answer : Option (Except Failure (Option Unit))}
    (k : Feeds x engine pid answer x') (h : x.Joined engine pid) : x.Stays x' pid := by
  have winner := Race.winner?_read h.winner
  have later := (Race.sameTable_read x.race).signal
  cases k with
  | waits read | stopped read | ended read => rw [read] at winner later; exact h.stays_race winner later
  | fed read => rw [read] at winner later; exact h.stays_with _ _ _ winner later
  | @lost chunk race failure hash read =>
    rw [read] at winner later
    exact h.stays_with (race.raise failure.cause) _ _ winner (later.trans (.raised _ _))

/-! ### Failures leave the signal raised -/

theorem Sends.halting (k : Sends x engine pid data (.error failure) x') (h : x.Joined engine pid) :
    x'.race.isHalting = true := by
  cases k with
  | refused raised => simp [Race.isHalting, h.sound.heard raised]
  | lost => exact Race.isHalting_raise_of_sound h.sound _

theorem Takes.halting {now : Nat} {s : Entropy}
    (k : Takes x engine pid now s (some (.error failure)) x') (h : x.Joined engine pid) :
    x'.race.isHalting = true := by
  cases k with
  | lost => exact Race.isHalting_raise_of_sound h.sound _

theorem Feeds.halting (k : Feeds x engine pid (some (.error failure)) x')
    (h : x.Joined engine pid) : x'.race.isHalting = true := by
  cases k with
  | stopped read =>
    have halting := Race.isHalting_of_read h.sound h.winner (congrArg Prod.fst read)
    rwa [read] at halting
  | lost read =>
    have later := (Race.sameTable_read x.race).signal
    rw [read] at later
    exact Race.isHalting_raise_of_sound (h.sound.later later) _

end Session

end PathRace
