import Mathlib.Tactic
import PathRace.Proofs.Chronicle
import PathRace.Proofs.World.Links

/-! An in-process pair in use: every answer of a read or a write is a function of the history of calls
on both ends (`answers_by_history`). -/

namespace PathRace

namespace Loopback

/-- A link with a user at each end, and the chunks of the writes that wait. -/
structure Manned where
  link : Loopback
  waiting : End → Option Bytes

inductive Deed
  /-- A new write replaces one that still waits. -/
  | write (e : End) (chunk : Bytes)
  | resume (e : End)
  | cancel (e : End)
  | read (e : End)
  | dropReader (e : End)
  | dropWriter (e : End)
  | close (e : End) (reason : CloseReason)
  deriving DecidableEq

/-- An entry of the history. -/
inductive Note
  /-- A write has begun or continued, with its progress. -/
  | wrote (e : End) (chunk : Bytes) (progress : Progress)
  | read (e : End) (answer : Option Inbound)
  | droppedReader (e : End)
  | droppedWriter (e : End)
  | closed (e : End) (reason : CloseReason)

namespace Manned

def new (capacity : Nat) : Manned := ⟨.new capacity, fun _ => none⟩

def attempt (e : End) (chunk : Bytes) (m : Manned) : List Note × Manned :=
  let (progress, link) := m.link.write e chunk
  let waits := match progress with
    | .inl _ => none
    | .inr _ => some chunk
  ([.wrote e chunk progress], ⟨link, Function.update m.waiting e waits⟩)

/-- A dropped half is not used any more. -/
def act (d : Deed) (m : Manned) : List Note × Manned :=
  match d with
  | .write e chunk => if (m.link.outward e).writerHeld then m.attempt e chunk else ([], m)
  | .resume e =>
    match m.waiting e with
    | some chunk => m.attempt e chunk
    | none => ([], m)
  | .cancel e => ([], { m with waiting := Function.update m.waiting e none })
  | .read e =>
    if (m.link.inward e).readerHeld then
      ([.read e (m.link.read e).1], { m with link := (m.link.read e).2 })
    else ([], m)
  | .dropReader e => ([.droppedReader e], { m with link := m.link.dropReader e })
  | .dropWriter e =>
    ([.droppedWriter e], ⟨m.link.dropWriter e, Function.update m.waiting e none⟩)
  | .close e reason => ([.closed e reason], { m with link := m.link.close reason })

/-- The history and the state after a list of deeds. -/
def after (capacity : Nat) (deeds : List Deed) : List Note × Manned :=
  deeds.foldl (fun (notes, m) d => (notes ++ (m.act d).1, (m.act d).2)) ([], new capacity)

end Manned

/-! ### History -/

namespace Note

def written? (e : End) : Note → Option Bytes
  | .wrote e' chunk (.inl (.ok ())) => if e' = e then some chunk else none
  | _ => none

def received? (e : End) : Note → Option Bytes
  | .read e' (some (.chunk data)) => if e' = e then some data else none
  | _ => none

def isClose : Note → Bool
  | .closed .. => true
  | _ => false

def dropsReader (e : End) : Note → Bool
  | .droppedReader e' => e' = e
  | _ => false

def dropsWriter (e : End) : Note → Bool
  | .droppedWriter e' => e' = e
  | _ => false

end Note

def written (e : End) (notes : List Note) : List Bytes := notes.filterMap (·.written? e)

def received (e : End) (notes : List Note) : List Bytes := notes.filterMap (·.received? e)

/-- The specification of a read, from the history: the end once any end has been closed; otherwise the
next unread chunk of the other end; otherwise the end if the other writer has been dropped. -/
def readAnswer (e : End) (notes : List Note) : Option Inbound :=
  if notes.any Note.isClose then some .ended
  else
    match (written e.other notes).drop (received e notes).length with
    | chunk :: _ => some (.chunk chunk)
    | [] => if notes.any (Note.dropsWriter e.other) then some .ended else none

/-- The specification of a write, from the history: it fails once any end has been closed or the other
reader has been dropped; otherwise it succeeds if fewer chunks than the capacity are unread, and waits
if not. -/
def writeAnswer (cap : Nat) (e : End) (chunk : Bytes) (notes : List Note) : Progress :=
  if notes.any Note.isClose || notes.any (Note.dropsReader e.other) then .failed .closed
  else if (written e notes).length < (received e.other notes).length + max cap 1 then .ok
  else .inr (.offered chunk)

/-- Every answer is the one specified by the history before it. -/
def Note.Follows (cap : Nat) (before : List Note) : Note → Prop
  | .wrote e chunk progress => progress = writeAnswer cap e chunk before
  | .read e answer => answer = readAnswer e before
  | _ => True

/-- The state of the link agrees with the history. -/
structure Recalls (cap : Nat) (notes : List Note) (l : Loopback) : Prop where
  capacity : l.capacity = max cap 1
  unread : ∀ e, written e.other notes = received e notes ++ (l.inward e).unread
  room : ∀ e, (l.inward e).unread.length ≤ max cap 1
  closed : l.closed.isSome = notes.any Note.isClose
  writer : ∀ e, (l.inward e).writerHeld = !notes.any (Note.dropsWriter e.other)
  reader : ∀ e, (l.inward e).readerHeld = !notes.any (Note.dropsReader e)

variable {cap : Nat} {notes : List Note} {l : Loopback} {m : Manned} {e : End}

theorem other_other (e : End) : e.other.other = e := by cases e <;> rfl

theorem ne_other (e : End) : e ≠ e.other := by cases e <;> simp [End.other]

theorem eq_or_eq_other (e e' : End) : e' = e ∨ e' = e.other := by
  cases e <;> cases e' <;> simp [End.other]

theorem inward_setInward (e e' : End) (q : Queue) (l : Loopback) :
    (l.setInward e q).inward e' = if e' = e then q else l.inward e' := by
  cases e <;> cases e' <;> rfl

theorem recalls_new (cap : Nat) : Recalls cap [] (.new cap) := by
  refine ⟨rfl, ?_, ?_, rfl, ?_, ?_⟩
  all_goals
    intro e
    cases e <;> simp [new, inward, written, received]

/-! ### Reads and writes -/

theorem read_of_closed (closed : l.closed.isSome = true) (e : End) : l.read e = (some .ended, l) := by
  rw [Loopback.read, if_pos closed]

theorem read_of_chunk {chunk : Bytes} {rest : List Bytes} (opened : l.closed.isSome = false)
    (unread : (l.inward e).unread = chunk :: rest) :
    l.read e = (some (.chunk chunk), l.setInward e { l.inward e with unread := rest }) := by
  simp [Loopback.read, opened, unread]

theorem read_of_empty (opened : l.closed.isSome = false) (unread : (l.inward e).unread = []) :
    l.read e = (if (l.inward e).writerHeld then none else some .ended, l) := by
  simp [Loopback.read, opened, unread]

theorem write_of_refusal (refusal : (l.closed.isSome || !(l.outward e).readerHeld) = true)
    (chunk : Bytes) : l.write e chunk = (.failed .closed, l) := by
  unfold Loopback.write
  rcases Bool.or_eq_true_iff.1 refusal with closed | gone
  · rw [if_pos closed]
  · dsimp only
    rw [if_pos gone, ite_self]

theorem write_of_room (heard : (l.closed.isSome || !(l.outward e).readerHeld) = false)
    (room : l.hasRoom e = true) (chunk : Bytes) :
    l.write e chunk = (.ok, l.setInward e.other
      { l.outward e with unread := (l.outward e).unread ++ [chunk] }) := by
  obtain ⟨opened, held⟩ := Bool.or_eq_false_iff.1 heard
  simp [Loopback.write, opened, held, room]

theorem write_of_full (heard : (l.closed.isSome || !(l.outward e).readerHeld) = false)
    (full : l.hasRoom e = false) (chunk : Bytes) :
    l.write e chunk = (.inr (.offered chunk), l) := by
  obtain ⟨opened, held⟩ := Bool.or_eq_false_iff.1 heard
  simp [Loopback.write, opened, held, full]

theorem canRead_eq (e : End) (l : Loopback) : l.canRead e = (l.read e).1.isSome := by
  unfold canRead
  cases opened : l.closed.isSome with
  | true => rw [read_of_closed opened]; rfl
  | false =>
    cases unread : (l.inward e).unread with
    | cons chunk rest => rw [read_of_chunk opened unread]; rfl
    | nil =>
      rw [read_of_empty opened unread]
      cases (l.inward e).writerHeld <;> rfl

theorem canWrite_eq (e : End) (chunk : Bytes) (l : Loopback) :
    l.canWrite e = (l.write e chunk).1.isLeft := by
  unfold canWrite
  cases heard : (l.closed.isSome || !(l.outward e).readerHeld) with
  | true => rw [write_of_refusal heard]; rfl
  | false =>
    cases room : l.hasRoom e with
    | true => rw [write_of_room heard room]; rfl
    | false => rw [write_of_full heard room]; rfl

/-- The entry concerns only the queue that `e` reads from. -/
structure Note.Concerns (e : End) (note : Note) : Prop where
  written : note.written? e = none
  received : note.received? e.other = none
  closed : note.isClose = false
  writer : note.dropsWriter e = false
  reader : note.dropsReader e.other = false

theorem concerns_wrote (e : End) (chunk : Bytes) (progress : Progress) :
    Note.Concerns e.other (.wrote e chunk progress) := by
  refine ⟨?_, rfl, rfl, rfl, rfl⟩
  unfold Note.written?
  split
  · rename_i same
    cases same
    exact if_neg (ne_other e)
  · rfl

theorem concerns_read (e : End) (answer : Option Inbound) : Note.Concerns e (.read e answer) := by
  refine ⟨rfl, ?_, rfl, rfl, rfl⟩
  unfold Note.received?
  split
  · rename_i same
    cases same
    exact if_neg (ne_other e)
  · rfl

theorem concerns_droppedReader (e : End) : Note.Concerns e (.droppedReader e) :=
  ⟨rfl, rfl, rfl, rfl, decide_eq_false (ne_other e)⟩

theorem concerns_droppedWriter (e : End) : Note.Concerns e.other (.droppedWriter e) :=
  ⟨rfl, rfl, rfl, decide_eq_false (ne_other e), rfl⟩

/-! ### State of a link -/

namespace Recalls

theorem read_eq (h : Recalls cap notes l) (e : End) : (l.read e).1 = readAnswer e notes := by
  have rest : (written e.other notes).drop (received e notes).length = (l.inward e).unread := by
    rw [h.unread e, List.drop_left]
  unfold readAnswer
  rw [rest, ← h.closed]
  cases opened : l.closed.isSome with
  | true => rw [read_of_closed opened]; rfl
  | false =>
    cases unread : (l.inward e).unread with
    | cons chunk rest => rw [read_of_chunk opened unread]; rfl
    | nil =>
      rw [read_of_empty opened unread, h.writer e]
      cases notes.any (Note.dropsWriter e.other) <;> rfl

theorem hasRoom_iff (h : Recalls cap notes l) (e : End) : l.hasRoom e = true ↔
    (written e notes).length < (received e.other notes).length + max cap 1 := by
  have unread := congrArg List.length (h.unread e.other)
  rw [other_other, List.length_append] at unread
  simp only [hasRoom, outward, decide_eq_true_eq, h.capacity]
  omega

theorem write_eq (h : Recalls cap notes l) (e : End) (chunk : Bytes) :
    (l.write e chunk).1 = writeAnswer cap e chunk notes := by
  have gone : (!(l.outward e).readerHeld) = notes.any (Note.dropsReader e.other) := by
    rw [outward, h.reader e.other, Bool.not_not]
  unfold writeAnswer
  rw [← gone, ← h.closed]
  cases heard : (l.closed.isSome || !(l.outward e).readerHeld) with
  | true => rw [write_of_refusal heard]; rfl
  | false =>
    rw [if_neg Bool.false_ne_true]
    cases room : l.hasRoom e with
    | true => rw [write_of_room heard room, if_pos ((h.hasRoom_iff e).1 room)]
    | false =>
      have full := mt (h.hasRoom_iff e).2 (by rw [room]; exact Bool.false_ne_true)
      rw [write_of_full heard room, if_neg full]

theorem step {note : Note} {l' : Loopback} (h : Recalls cap notes l)
    (capacity : l'.capacity = l.capacity)
    (unread : ∀ e, (l.inward e).unread ++ (note.written? e.other).toList =
      (note.received? e).toList ++ (l'.inward e).unread)
    (room : ∀ e, (l'.inward e).unread.length ≤ max cap 1)
    (closed : l'.closed.isSome = (l.closed.isSome || note.isClose))
    (writer : ∀ e, (l'.inward e).writerHeld = ((l.inward e).writerHeld && !note.dropsWriter e.other))
    (reader : ∀ e, (l'.inward e).readerHeld = ((l.inward e).readerHeld && !note.dropsReader e)) :
    Recalls cap (notes ++ [note]) l' := by
  refine ⟨capacity.trans h.capacity, fun e => ?_, room, ?_, fun e => ?_, fun e => ?_⟩
  · have more (f : Note → Option Bytes) : [note].filterMap f = (f note).toList := by
      cases hf : f note <;> simp [hf]
    have before := h.unread e
    unfold written received at before ⊢
    rw [List.filterMap_append, List.filterMap_append, before, more, more, List.append_assoc, unread e,
      List.append_assoc]
  · rw [closed, h.closed]; simp
  · rw [writer, h.writer]; simp
  · rw [reader, h.reader]; simp

theorem stepAt {note : Note} {q : Queue} (h : Recalls cap notes l) (concerns : note.Concerns e)
    (unread : (l.inward e).unread ++ (note.written? e.other).toList =
      (note.received? e).toList ++ q.unread)
    (room : q.unread.length ≤ max cap 1)
    (writer : q.writerHeld = ((l.inward e).writerHeld && !note.dropsWriter e.other))
    (reader : q.readerHeld = ((l.inward e).readerHeld && !note.dropsReader e)) :
    Recalls cap (notes ++ [note]) (l.setInward e q) := by
  apply h.step (capacity_setInward ..)
  · intro e'
    rw [inward_setInward]
    rcases eq_or_eq_other e e' with rfl | rfl
    · rw [if_pos rfl]; exact unread
    · rw [if_neg (ne_other e).symm, other_other, concerns.written, concerns.received]
      exact List.append_nil _
  · intro e'
    rw [inward_setInward]
    split_ifs
    · exact room
    · exact h.room e'
  · rw [closed_setInward, concerns.closed, Bool.or_false]
  · intro e'
    rw [inward_setInward]
    rcases eq_or_eq_other e e' with rfl | rfl
    · rw [if_pos rfl]; exact writer
    · rw [if_neg (ne_other e).symm, other_other, concerns.writer, Bool.not_false, Bool.and_true]
  · intro e'
    rw [inward_setInward]
    rcases eq_or_eq_other e e' with rfl | rfl
    · rw [if_pos rfl]; exact reader
    · rw [if_neg (ne_other e).symm, concerns.reader, Bool.not_false, Bool.and_true]

theorem still {note : Note} (h : Recalls cap notes l) (concerns : note.Concerns e)
    (written : note.written? e.other = none) (received : note.received? e = none)
    (writer : note.dropsWriter e.other = false) (reader : note.dropsReader e = false) :
    Recalls cap (notes ++ [note]) l := by
  have same : l.setInward e (l.inward e) = l := by cases e <;> rfl
  rw [← same]
  apply h.stepAt concerns _ (h.room e)
  · rw [writer, Bool.not_false, Bool.and_true]
  · rw [reader, Bool.not_false, Bool.and_true]
  · simp [written, received]

theorem wrote (h : Recalls cap notes l) (e : End) (chunk : Bytes) :
    Recalls cap (notes ++ [.wrote e chunk (l.write e chunk).1]) (l.write e chunk).2 := by
  cases heard : (l.closed.isSome || !(l.outward e).readerHeld) with
  | true =>
    rw [write_of_refusal heard]
    exact h.still (concerns_wrote e chunk _) rfl rfl rfl rfl
  | false =>
    cases room : l.hasRoom e with
    | false =>
      rw [write_of_full heard room]
      exact h.still (concerns_wrote e chunk _) rfl rfl rfl rfl
    | true =>
      have fits : (l.outward e).unread.length < max cap 1 := by
        simpa [hasRoom, h.capacity] using room
      rw [write_of_room heard room]
      apply h.stepAt (concerns_wrote e chunk _)
      · simp [Note.written?, Note.received?, Progress.ok, other_other, outward]
      · simpa using fits
      · exact (Bool.and_true _).symm
      · exact (Bool.and_true _).symm

theorem readOut (h : Recalls cap notes l) (e : End) :
    Recalls cap (notes ++ [.read e (l.read e).1]) (l.read e).2 := by
  cases opened : l.closed.isSome with
  | true =>
    rw [read_of_closed opened]
    exact h.still (concerns_read e _) rfl rfl rfl rfl
  | false =>
    cases unread : (l.inward e).unread with
    | nil =>
      rw [read_of_empty opened unread]
      apply h.still (concerns_read e _) rfl _ rfl rfl
      cases (l.inward e).writerHeld <;> rfl
    | cons chunk rest =>
      have room := h.room e
      rw [unread, List.length_cons] at room
      rw [read_of_chunk opened unread]
      apply h.stepAt (concerns_read e _)
      · simp [Note.written?, Note.received?, unread]
      · exact Nat.le_of_succ_le room
      · exact (Bool.and_true _).symm
      · exact (Bool.and_true _).symm

theorem droppedReader (h : Recalls cap notes l) (e : End) :
    Recalls cap (notes ++ [.droppedReader e]) (l.dropReader e) := by
  apply h.stepAt (concerns_droppedReader e)
  · exact List.append_nil _
  · exact h.room e
  · exact (Bool.and_true _).symm
  · simp [Note.dropsReader]

theorem droppedWriter (h : Recalls cap notes l) (e : End) :
    Recalls cap (notes ++ [.droppedWriter e]) (l.dropWriter e) := by
  apply h.stepAt (concerns_droppedWriter e)
  · exact List.append_nil _
  · exact h.room e.other
  · simp [Note.dropsWriter, other_other]
  · exact (Bool.and_true _).symm

theorem closedBy (h : Recalls cap notes l) (e : End) (reason : CloseReason) :
    Recalls cap (notes ++ [.closed e reason]) (l.close reason) := by
  refine h.step ?_ ?_ ?_ ?_ ?_ ?_
  · rfl
  · intro e'; exact List.append_nil _
  · exact h.room
  · exact (Bool.or_true _).symm
  · intro e'; exact (Bool.and_true _).symm
  · intro e'; exact (Bool.and_true _).symm

end Recalls

/-! ### Runs -/

/-- The state agrees with the history, and every answer so far has been as specified. -/
structure Agrees (cap : Nat) (notes : List Note) (m : Manned) : Prop where
  recalls : Recalls cap notes m.link
  answers : Chronicle (Note.Follows cap) notes

namespace Agrees

theorem note {note : Note} {m' : Manned} (h : Agrees cap notes m) (follows : note.Follows cap notes)
    (recalls : Recalls cap (notes ++ [note]) m'.link) : Agrees cap (notes ++ [note]) m' :=
  ⟨recalls, h.answers.concat follows⟩

theorem silent {waiting : End → Option Bytes} (h : Agrees cap notes m) :
    Agrees cap (notes ++ []) ⟨m.link, waiting⟩ := by
  rw [List.append_nil]
  exact ⟨h.recalls, h.answers⟩

theorem attempt (h : Agrees cap notes m) (e : End) (chunk : Bytes) :
    Agrees cap (notes ++ (m.attempt e chunk).1) (m.attempt e chunk).2 :=
  h.note (h.recalls.write_eq e chunk) (h.recalls.wrote e chunk)

theorem act (h : Agrees cap notes m) (d : Deed) : Agrees cap (notes ++ (m.act d).1) (m.act d).2 := by
  cases d with
  | write e chunk =>
    unfold Manned.act
    dsimp only
    split_ifs
    · exact h.attempt e chunk
    · exact h.silent
  | resume e =>
    unfold Manned.act
    dsimp only
    split
    · exact h.attempt e _
    · exact h.silent
  | cancel e => exact h.silent
  | read e =>
    unfold Manned.act
    dsimp only
    split_ifs
    · exact h.note (h.recalls.read_eq e) (h.recalls.readOut e)
    · exact h.silent
  | dropReader e => exact h.note trivial (h.recalls.droppedReader e)
  | dropWriter e => exact h.note trivial (h.recalls.droppedWriter e)
  | close e reason => exact h.note trivial (h.recalls.closedBy e reason)

end Agrees

theorem agrees_after (cap : Nat) (deeds : List Deed) :
    Agrees cap (Manned.after cap deeds).1 (Manned.after cap deeds).2 := by
  unfold Manned.after
  refine List.foldlRecOn (motive := fun (r : List Note × Manned) => Agrees cap r.1 r.2) deeds _ ?_ ?_
  · exact ⟨recalls_new cap, .nil⟩
  · intro r h d _
    exact h.act d

/-- For any use of both ends of a loopback: what has been read at one end is a prefix of what has been
written at the other, with at most `max capacity 1` chunks in between. Every read and write is answered as
specified by the history, and it is enabled exactly when that is an answer. -/
theorem answers_by_history (capacity : Nat) (deeds : List Deed) :
    let notes := (Manned.after capacity deeds).1
    let link := (Manned.after capacity deeds).2.link
    (∀ e, received e notes <+: written e.other notes ∧
      (written e.other notes).length ≤ (received e notes).length + max capacity 1) ∧
    Chronicle (Note.Follows capacity) notes ∧
    (∀ e, link.canRead e = (readAnswer e notes).isSome) ∧
    ∀ e chunk, link.canWrite e = (writeAnswer capacity e chunk notes).isLeft := by
  intro notes link
  obtain ⟨recalls, answers⟩ : Agrees capacity notes (Manned.after capacity deeds).2 :=
    agrees_after capacity deeds
  refine ⟨fun e => ⟨?_, ?_⟩, answers, fun e => ?_, fun e chunk => ?_⟩
  · exact ⟨_, (recalls.unread e).symm⟩
  · have room := recalls.room e
    have all := congrArg List.length (recalls.unread e)
    rw [List.length_append] at all
    omega
  · rw [canRead_eq, recalls.read_eq]
  · rw [canWrite_eq e chunk, recalls.write_eq]

/-- A queue of capacity one, with a write cancelled while it waits, one resumed, and a dropped writer. -/
example : (Manned.after 0 [.write .a [1], .write .a [2], .cancel .a, .write .a [3], .read .b, .resume .a,
      .dropWriter .a, .read .b, .read .b, .write .b [4], .close .b .normal, .read .a, .write .b [5]]).1 =
    [.wrote .a [1] .ok, .wrote .a [2] (.inr (.offered [2])), .wrote .a [3] (.inr (.offered [3])),
      .read .b (some (.chunk [1])), .wrote .a [3] .ok, .droppedWriter .a, .read .b (some (.chunk [3])),
      .read .b (some .ended), .wrote .b [4] .ok, .closed .b .normal, .read .a (some .ended),
      .wrote .b [5] (.failed .closed)] := rfl

end Loopback
end PathRace
