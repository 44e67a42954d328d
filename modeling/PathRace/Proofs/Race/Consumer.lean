import PathRace.Proofs.Race.Pumps

/-! The moves of a race other than those of its pumps: its consumer, the watcher and raises of the
signal. `Moved` has a constructor for each, with its output and the state it leaves. None of them moves
a pump or hands out a chunk of another path than the winner after the nomination (`seated_after`). -/

namespace PathRace

namespace Race

/-! ### Reads -/

/-- The possible results of a read. -/
inductive Reads (r : Race) (w : PathId) : Option (Except Failure (Option Bytes)) → Race → Prop
  | kept {data : Bytes} {rest : List Bytes} {writer : Bool}
      (consumer : r.consumer = .nominated w (data :: rest) true writer) :
      Reads r w (some (.ok (some data))) { r with consumer := .nominated w rest true writer }
  | stopped {cause : Cause} {writer : Bool} (consumer : r.consumer = .nominated w [] true writer)
      (raised : r.signal.heard = some cause) : Reads r w (some (.error (.ofCause cause))) r
  | next {data : Bytes} {writer : Bool} (consumer : r.consumer = .nominated w [] true writer)
      (running : r.isHalting = false) (slot : r.slot = some (w, data)) :
      Reads r w (some (.ok (some data))) { r with slot := none }
  | ended {writer : Bool} (consumer : r.consumer = .nominated w [] true writer)
      (running : r.isHalting = false) (slot : r.slot = none) (dry : r.isDry = true) :
      Reads r w (some (.ok none)) r
  | waits {writer : Bool} (consumer : r.consumer = .nominated w [] true writer)
      (running : r.isHalting = false) (slot : r.slot = none) (dry : r.isDry = false) :
      Reads r w none r

theorem hasReader_iff {r : Race} : r.hasReader = true ↔
    ∃ w backlog writer, r.consumer = .nominated w backlog true writer := by
  unfold hasReader
  cases r.consumer <;> simp

theorem winner?_of_consumer {r : Race} {w : PathId} {backlog : List Bytes} {reader writer : Bool}
    (h : r.consumer = .nominated w backlog reader writer) : r.winner? = some w := by
  simp [winner?, h]

theorem Seated.reads {r : Race} (s : Seated r) (hr : r.hasReader = true) :
    ∃ w, r.winner? = some w ∧ Reads r w r.read.1 r.read.2 := by
  obtain ⟨w, backlog, writer, hc⟩ := hasReader_iff.1 hr
  have hw := winner?_of_consumer hc
  refine ⟨w, hw, ?_⟩
  cases backlog with
  | cons data rest =>
    simp only [read, hc]
    exact .kept hc
  | nil =>
    simp only [read, hc]
    cases hh : r.signal.heard with
    | some cause => exact .stopped hc hh
    | none =>
      have running : r.isHalting = false := by simp [isHalting, hh]
      cases hs : r.slot with
      | some e =>
        obtain ⟨sender, data⟩ := e
        obtain rfl : sender = w := s.slot w hw _ hs
        simpa [← hc] using Reads.next hc running hs
      | none =>
        cases hd : r.isDry with
        | false => exact .waits hc running hs hd
        | true =>
          have none_yet := cause_of_running s.heard running
          simpa [none_yet] using Reads.ended hc running hs hd

/-! ### Moves -/

theorem receive_cases (r : Race) :
    (r.receive.2 = r ∧ ∀ e, r.receive.1 ≠ some (.ok e)) ∨
    ∃ pid data, r.slot = some (pid, data) ∧ r.receive =
      (if r.owns pid then some (.ok (pid, data)) else none, { r with slot := none }) := by
  unfold receive
  cases r.signal.heard with
  | some cause => exact .inl ⟨rfl, by simp⟩
  | none =>
    cases hs : r.slot with
    | some e => exact .inr ⟨e.1, e.2, rfl, rfl⟩
    | none =>
      dsimp only
      split_ifs
      · exact .inl ⟨rfl, by simp⟩
      · exact .inl ⟨rfl, by simp⟩

theorem openWrite_keeps (pid : PathId) (r : Race) :
    ∃ writers, (r.openWrite pid).2 = { r with writers } := by
  unfold openWrite
  cases r.signal.cause with
  | some cause => exact ⟨r.writers, rfl⟩
  | none =>
    dsimp only
    split_ifs
    · exact ⟨_, rfl⟩
    · exact ⟨r.writers, rfl⟩
    · exact ⟨r.writers, rfl⟩

theorem winner?_of_racing {r : Race} (h : r.isRacing = true) : r.winner? = none := by
  have hc : r.consumer = .racing := by simpa [isRacing] using h
  simp [winner?, hc]

/-- The effect on a race of dropping its consumer before a nomination. -/
def leave (r : Race) : Race := { r with consumer := .gone, writers := [], slot := none }.raise .closed

theorem abandon_of_racing {r : Race} (h : r.isRacing = true) : r.abandon = r.leave := by
  have hc : r.consumer = .racing := by simpa [isRacing] using h
  simp [abandon, hc, leave]

theorem abandon_of_not_racing {r : Race} (h : r.isRacing = false) : r.abandon = r := by
  have hc : r.consumer ≠ .racing := by simpa [isRacing] using h
  simp [abandon]

def readChunk (r : Race) : List (PathId × Bytes) :=
  match r.winner?, r.read.1 with
  | some pid, some (.ok (some data)) => [(pid, data)]
  | _, _ => []

def receiveChunk (r : Race) : List (PathId × Bytes) :=
  match r.receive.1 with
  | some (.ok e) => [e]
  | _ => []

/-- The chunks that a move hands to the consumer, with their paths. -/
def outflow (r : Race) : Move → List (PathId × Bytes)
  | .receive => if r.isRacing then r.receiveChunk else []
  | .read => if r.hasReader then r.readChunk else []
  | _ => []

/-- The possible results of a move other than that of a pump. -/
inductive Moved (r : Race) : Move → List (PathId × Bytes) → Race → Prop
  | still {m : Move} : Moved r m [] r
  | raised {cause : Cause} : Moved r (.raise cause) [] (r.raise cause)
  | swept {cause : Cause} (halting : r.isHalting = true) :
      Moved r .sweep [] { r.closing r.pids (.ofCause cause) with
        ownership := .released
        watching := false }
  | received {pid : PathId} {data : Bytes} (racing : r.isRacing = true)
      (slot : r.slot = some (pid, data)) :
      Moved r .receive (if r.owns pid then [(pid, data)] else []) { r with slot := none }
  | opened {pid : PathId} {writers : List PathId} : Moved r (.openWrite pid) [] { r with writers }
  | pruned {pid : PathId} (racing : r.isRacing = true) : Moved r (.failWrite pid) [] (r.failWrite pid)
  | decided {pid : PathId} {pids : List PathId} (racing : r.isRacing = true)
      (table : r.ownership = .racing pids) (owned : pid ∈ pids) :
      Moved r (.nominate pid) [] { r.decided pid pids with
        slot := none
        consumer := .nominated pid ((r.slot.toList.filter (·.1 == pid)).map Prod.snd) true true
        writers := [pid] }
  | lost {pid : PathId} {pids : List PathId} (racing : r.isRacing = true)
      (table : r.ownership = .racing pids) :
      Moved r (.nominate pid) [] ((r.decided pid pids).raise (.pathFailed pid)).leave
  | left {m : Move} (racing : r.isRacing = true) : Moved r m [] r.leave
  | kept {w : PathId} {data : Bytes} {rest : List Bytes} {writer : Bool}
      (consumer : r.consumer = .nominated w (data :: rest) true writer) :
      Moved r .read [(w, data)] { r with consumer := .nominated w rest true writer }
  | next {w : PathId} {data : Bytes} {writer : Bool}
      (consumer : r.consumer = .nominated w [] true writer) (slot : r.slot = some (w, data)) :
      Moved r .read [(w, data)] { r with slot := none }
  | unwritten {w : PathId} {fault : PathFault} :
      Moved r (.failWinnerWrite fault) [] (r.raise (.pathFailed w))
  | unread {w : PathId} {backlog : List Bytes} (consumer : r.consumer = .nominated w backlog true true) :
      Moved r .dropReader [] { r with slot := none, consumer := .nominated w [] false true }
  | unheld {w : PathId} {backlog : List Bytes}
      (consumer : r.consumer = .nominated w backlog true true) :
      Moved r .dropWriter [] { r with writers := [], consumer := .nominated w backlog true false }
  | dropped {m : Move} {w : PathId} {backlog backlog' : List Bytes} {reader writer : Bool}
      {writers : List PathId} {slot : Option (PathId × Bytes)}
      (consumer : r.consumer = .nominated w backlog reader writer) (fewer : ∀ e ∈ slot, e ∈ r.slot) :
      Moved r m [] (raise .closed { r with
        slot
        writers
        consumer := .nominated w backlog' false false })

theorem moved_receive {r : Race} (hr : r.isRacing = true) :
    Moved r .receive r.receiveChunk r.receive.2 := by
  rcases receive_cases r with ⟨he, none_yet⟩ | ⟨pid, data, hs, he⟩
  · have quiet : r.receiveChunk = [] := by
      unfold receiveChunk
      split
      · exact absurd ‹_› (none_yet _)
      · rfl
    rw [he, quiet]
    exact .still
  · have chunk : r.receiveChunk = if r.owns pid then [(pid, data)] else [] := by
      rw [receiveChunk, he]
      cases r.owns pid <;> rfl
    rw [he, chunk]
    exact .received hr hs

theorem moved_read {r : Race} (s : Seated r) (hr : r.hasReader = true) :
    Moved r .read r.readChunk r.read.2 := by
  obtain ⟨w, hw, reads⟩ := s.reads hr
  unfold readChunk
  rw [hw]
  generalize r.read.1 = answer at reads ⊢
  generalize r.read.2 = r' at reads ⊢
  cases reads with
  | kept consumer => exact .kept consumer
  | next consumer _ slot => exact .next consumer slot
  | stopped | ended | waits => exact .still

theorem moved_nominate {r : Race} (pid : PathId) (hr : r.isRacing = true) :
    Moved r (.nominate pid) [] (r.nominate pid).2 := by
  rcases nominate_cases pid r with ⟨pids, ho, hm, -, he⟩ | ⟨pids, ho, -, he⟩ | ⟨-, he⟩
  · rw [he]
    exact .decided hr ho hm
  · rw [he, abandon_of_racing (r := (r.decided pid pids).raise (.pathFailed pid)) hr]
    exact .lost hr ho
  · rw [he, abandon_of_racing hr]
    exact .left hr

theorem moved_dropReader {r : Race} (hr : r.hasReader = true) :
    Moved r .dropReader [] r.dropReader := by
  obtain ⟨w, backlog, writer, hc⟩ := hasReader_iff.1 hr
  unfold dropReader
  rw [hc]
  cases writer with
  | true => exact .unread hc
  | false => exact .dropped hc (by simp)

theorem moved_dropWriter {r : Race} (hw : r.hasWriter = true) :
    Moved r .dropWriter [] r.dropWriter := by
  unfold hasWriter at hw
  unfold dropWriter
  cases hc : r.consumer with
  | nominated w backlog reader writer =>
    obtain rfl : writer = true := by simpa [hc] using hw
    cases reader with
    | true => exact .unheld hc
    | false => exact .dropped hc (by simp)
  | racing | gone => simp [hc] at hw

theorem moved_after {r : Race} (s : Seated r) {m : Move} (hm : m.isPump = false) :
    Moved r m (r.outflow m) (r.after m) := by
  cases m with
  | pump => cases hm
  | raise cause => exact .raised
  | sweep =>
    simp only [after]
    split_ifs with can
    · unfold sweep
      split
      · exact .still
      · exact .swept (Bool.and_eq_true_iff.1 can).2
    · exact .still
  | receive =>
    simp only [after, outflow]
    split_ifs with hr
    · exact moved_receive hr
    · exact .still
  | openWrite pid =>
    simp only [after]
    split_ifs
    · obtain ⟨writers, he⟩ := openWrite_keeps pid r
      rw [he]
      exact .opened
    · exact .still
  | failWrite pid =>
    simp only [after]
    split_ifs with hr
    · exact .pruned hr
    · exact .still
  | nominate pid =>
    simp only [after]
    split_ifs with hr
    · exact moved_nominate pid hr
    · exact .still
  | abandon =>
    cases hr : r.isRacing with
    | true => rw [after, abandon_of_racing hr]; exact .left hr
    | false => rw [after, abandon_of_not_racing hr]; exact .still
  | read =>
    simp only [after, outflow]
    split_ifs with hr
    · exact moved_read s hr
    · exact .still
  | failWinnerWrite fault =>
    simp only [after]
    split_ifs
    · cases r.winner? with
      | none => exact .still
      | some w => exact .unwritten
    · exact .still
  | dropReader =>
    simp only [after]
    split_ifs with hr
    · exact moved_dropReader hr
    · exact .still
  | dropWriter =>
    simp only [after]
    split_ifs with hw
    · exact moved_dropWriter hw
    · exact .still

/-! ### Frame lemmas for moves -/

variable {r r' : Race} {m : Move} {out : List (PathId × Bytes)}

theorem Moved.places (h : Moved r m out r') : r'.places = r.places := by
  cases h with
  | @pruned pid racing =>
    obtain ⟨hr, hl, -, -⟩ := prune_keeps pid true { r with writers := r.writers.erase pid }
    rw [Race.places, failWrite, hr, hl, Race.places]
  | _ => rfl

theorem Moved.signal (h : Moved r m out r') : r.signal.Later r'.signal := by
  cases h with
  | still | swept | received | opened | decided | kept | next | unread | unheld => exact .refl _
  | raised | left | unwritten | dropped => exact .raised _ _
  | lost => exact (Signal.Later.raised _ _).trans (.raised _ _)
  | @pruned pid racing => exact signal_prune pid true { r with writers := r.writers.erase pid }

theorem Moved.winner (h : Moved r m out r') {w : PathId} (hw : r.winner? = some w) :
    r'.winner? = some w := by
  have past {P : Prop} (racing : r.isRacing = true) : P := by
    rw [winner?_of_racing racing] at hw
    cases hw
  cases h with
  | still | raised | swept | received | opened | next | unwritten => exact hw
  | pruned racing | decided racing | lost racing | left racing => exact past racing
  | kept consumer | unread consumer | unheld consumer | dropped consumer =>
    exact (winner?_of_consumer consumer).symm.trans hw

theorem Moved.pids (h : Moved r m out r') : r'.pids.Sublist r.pids := by
  have decided {pid : PathId} {pids : List PathId} (table : r.ownership = .racing pids) :
      (r.decided pid pids).pids.Sublist r.pids := by
    have before : r.pids = pids := by simp only [Race.pids, table]
    rw [before]
    by_cases hm : pid ∈ pids
    · simp [Race.pids, Race.decided, hm]
    · simp [Race.pids, Race.decided, hm]
  cases h with
  | swept => exact List.nil_sublist _
  | pruned => rw [failWrite, pids_prune]; exact List.erase_sublist
  | decided _ table => exact decided table
  | lost _ table => exact decided table
  | _ => exact .refl _

theorem Moved.seated (h : Moved r m out r') (s : Seated r) : Seated r' := by
  have later := h.signal
  have places := h.places
  have unwon (none_yet : r'.winner? = none) : Seated r' := by
    refine ⟨later.stopped s.heard, places ▸ s.distinct, ?_, ?_⟩
    · intro w hw
      rw [none_yet] at hw
      cases hw
    · intro w hw
      rw [none_yet] at hw
      cases hw
  have winner {w : PathId} {backlog : List Bytes} {reader writer : Bool}
      (consumer : r.consumer = .nominated w backlog reader writer) :
      ∀ v, some w = some v → r.winner? = some v :=
    fun v hv => hv ▸ winner?_of_consumer consumer
  cases h with
  | still => exact s
  | raised | opened | unwritten =>
    exact s.same later places (fun _ he => he) (fun _ hv => hv) fun _ _ _ => rfl
  | swept halting =>
    refine s.same later places (fun _ he => he) (fun _ hv => hv) fun _ _ running => ?_
    have running : r.isHalting = false := running
    rw [halting] at running
    cases running
  | received | next =>
    exact s.same later places (by intro e he; cases he) (fun _ hv => hv) fun _ _ _ => rfl
  | @pruned pid racing =>
    obtain ⟨-, -, -, hc⟩ := prune_keeps pid true { r with writers := r.writers.erase pid }
    apply unwon
    simpa [winner?, failWrite, hc] using winner?_of_racing racing
  | lost | left => exact unwon rfl
  | @decided pid pids racing table owned =>
    refine ⟨s.heard, s.distinct, ?_, ?_⟩
    · intro w _ e he; cases he
    · intro w hw _
      obtain rfl : pid = w := Option.some.inj hw
      exact ⟨true, by simp [Race.decided, owned], .inl rfl⟩
  | kept consumer => exact s.same later places (fun _ he => he) (winner consumer) fun _ _ _ => rfl
  | unheld consumer => exact s.same later places (fun _ he => he) (winner consumer) fun _ _ _ => rfl
  | unread consumer =>
    exact s.same later places (by intro e he; cases he) (winner consumer) fun _ _ _ => rfl
  | dropped consumer fewer => exact s.same later places fewer (winner consumer) fun _ _ _ => rfl

theorem pump_of_isPump (hm : m.isPump = true) : ∃ pid item, m = .pump pid item := by
  cases m with
  | pump pid item => exact ⟨pid, item, rfl⟩
  | _ => cases hm

theorem seated_after (s : Seated r) (m : Move) : Seated (r.after m) := by
  cases hm : m.isPump with
  | false => exact (moved_after s hm).seated s
  | true =>
    obtain ⟨pid, item, rfl⟩ := pump_of_isPump hm
    exact (pumped_after r pid item).seated s

theorem winner?_after (s : Seated r) {w : PathId} (hw : r.winner? = some w) (m : Move) :
    (r.after m).winner? = some w := by
  cases hm : m.isPump with
  | false => exact (moved_after s hm).winner hw
  | true =>
    obtain ⟨pid, item, rfl⟩ := pump_of_isPump hm
    rw [winner?, (pumped_after r pid item).consumer]
    exact hw

theorem sublist_pids_after (s : Seated r) (m : Move) : (r.after m).pids.Sublist r.pids := by
  cases hm : m.isPump with
  | false => exact (moved_after s hm).pids
  | true =>
    obtain ⟨pid, item, rfl⟩ := pump_of_isPump hm
    exact (pumped_after r pid item).pids

end Race

end PathRace
