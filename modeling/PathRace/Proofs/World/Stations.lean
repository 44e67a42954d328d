import PathRace.Proofs.World.Links

/-! The close reason of a socket end. The reason is set by the first close, and the sender's close
message carries the reason set at that time (`Socket.tells_send`). -/

namespace PathRace

def Packet.isClose : Packet → Bool
  | .close _ => true
  | _ => false

/-- The reason of the first close. -/
def CloseReason.orElse (reason : CloseReason) (closed : Option CloseReason) : Option CloseReason :=
  some (closed.getD reason)

@[simp] theorem CloseReason.orElse_none (reason : CloseReason) : reason.orElse none = some reason := rfl

@[simp] theorem CloseReason.orElse_some (reason r : CloseReason) : reason.orElse (some r) = some r := rfl

namespace Socket

variable {e : End} {x : Socket} {s s₀ : Station}

@[simp] theorem station?_put (e e' : End) (s : Station) (x : Socket) :
    (x.put e s).station? e' = if e' = e then some s else x.station? e' := by
  obtain ⟨narrow, near, far, toNear, toFar⟩ := x
  cases e <;> cases e' <;> cases far <;> rfl

@[simp] theorem station?_setIncoming (e e' : End) (l : List Packet) (x : Socket) :
    (x.setIncoming e l).station? e' = x.station? e' := by
  cases e <;> cases e' <;> rfl

@[simp] theorem station?_transmit (e e' : End) (p : Packet) (x : Socket) :
    (x.transmit e p).station? e' = x.station? e' := station?_setIncoming ..

@[simp] theorem outgoing_put (e e' : End) (s : Station) (x : Socket) :
    (x.put e s).outgoing e' = x.outgoing e' := by
  cases e <;> cases e' <;> rfl

@[simp] theorem outgoing_setIncoming (e : End) (l : List Packet) (x : Socket) :
    (x.setIncoming e.other l).outgoing e = l := by
  cases e <;> rfl

@[simp] theorem outgoing_transmit (e : End) (p : Packet) (x : Socket) :
    (x.transmit e p).outgoing e = x.outgoing e ++ [p] := outgoing_setIncoming ..

/-- The reason of the close of an end and the state of its sender, if it is the end of a path. -/
def standing? (e : End) (x : Socket) : Option (Option CloseReason × Sender) :=
  (x.station? e).map fun s => (s.closed, s.sender)

theorem standing?_setIncoming (e e' : End) (l : List Packet) (x : Socket) :
    (x.setIncoming e l).standing? e' = x.standing? e' := by simp [standing?]

theorem standing?_transmit (e e' : End) (p : Packet) (x : Socket) :
    (x.transmit e p).standing? e' = x.standing? e' := by simp [standing?]

theorem standing?_put_self (e : End) (s : Station) (x : Socket) :
    (x.put e s).standing? e = some (s.closed, s.sender) := by simp [standing?]

theorem standing?_put_of_ne {e' : End} (h : e' ≠ e) (s : Station) (x : Socket) :
    (x.put e s).standing? e' = x.standing? e' := by simp [standing?, h]

theorem standing?_put (h : x.station? e = some s₀) (closed : s.closed = s₀.closed)
    (sender : s.sender = s₀.sender) (e' : End) : (x.put e s).standing? e' = x.standing? e' := by
  by_cases he : e' = e
  · subst he
    rw [standing?_put_self, closed, sender, standing?, h]
    rfl
  · exact standing?_put_of_ne he s x

theorem standing?_dropReader (e e' : End) (x : Socket) :
    (x.dropReader e).standing? e' = x.standing? e' := by
  unfold dropReader update
  split
  · rfl
  · rename_i s hs
    apply standing?_put hs <;> rfl

theorem standing?_dropWriter (e e' : End) (x : Socket) :
    (x.dropWriter e).standing? e' = x.standing? e' := by
  unfold dropWriter update
  split
  · rfl
  · rename_i s hs
    apply standing?_put hs <;> rfl

theorem standing?_close (e e' : End) (reason : CloseReason) (x : Socket) :
    (x.close e reason).standing? e' =
      if e' = e then (x.standing? e').map (Prod.map reason.orElse id) else x.standing? e' := by
  unfold close update
  cases hs : x.station? e with
  | none =>
    split_ifs with he
    · subst he; simp [standing?, hs]
    · rfl
  | some s =>
    dsimp only
    split_ifs with he
    · subst he
      rw [standing?_put_self, standing?, hs]
      rfl
    · exact standing?_put_of_ne he _ x

theorem standing?_read (e e' : End) (x : Socket) : (x.read e).2.standing? e' = x.standing? e' := by
  unfold read
  cases hs : x.station? e with
  | none => rfl
  | some s =>
    have put (l : List Packet) {s' : Station} (closed : s'.closed = s.closed)
        (sender : s'.sender = s.sender) :
        ((x.setIncoming e l).put e s').standing? e' = x.standing? e' :=
      (standing?_put ((station?_setIncoming ..).trans hs) closed sender e').trans
        (standing?_setIncoming ..)
    dsimp only
    by_cases ended : hasEnded s = true
    · rw [if_pos ended]
    · rw [if_neg ended]
      split
      · exact standing?_setIncoming ..
      · apply put <;> rfl
      · apply put <;> rfl
      · split_ifs
        · apply put <;> rfl
        · exact standing?_setIncoming ..

theorem standing?_write (e e' : End) (now : Nat) (write : Writing) (x : Socket) :
    (x.write e now write).2.standing? e' = x.standing? e' := by
  unfold Socket.write
  cases hs : x.station? e with
  | none => rfl
  | some s =>
    cases write with
    | offered chunk =>
      dsimp only
      split_ifs
      · rfl
      · split <;> apply standing?_put hs <;> rfl
    | stalled stall =>
      dsimp only
      split <;> rfl

/-! ### The sender -/

/-- What the next move of the sender puts on the wire. -/
def sent (e : End) (now : Nat) (x : Socket) : List Packet :=
  ((x.send e now).outgoing e).drop (x.outgoing e).length

/-- The possible moves of a sender. -/
inductive Moves (e : End) (now : Nat) (s : Station) (x : Socket) : Socket → Prop
  | still : Moves e now s x x
  | drained {s' : Station} (closed : s'.closed = s.closed) (sender : s'.sender = s.sender) :
      Moves e now s x (x.put e s')
  | carried {s' : Station} {chunk : Bytes} (closed : s'.closed = s.closed) (sender : s'.sender = s.sender) :
      Moves e now s x ((x.put e s').transmit e (.binary chunk))
  | parts {s' : Station} (closed : s'.closed = s.closed) : Moves e now s x (x.part e now s')
  | speaks {s' : Station} (parting : s.sender ≠ .running) (closed : s'.closed = s.closed) :
      Moves e now s x ((x.put e s').transmit e (Packet.farewell (s.closed.getD .normal)))
  | ends {s' : Station} (parting : s.sender ≠ .running) (closed : s'.closed = s.closed) :
      Moves e now s x (x.put e s')
  /-- The time for the close message is over. -/
  | late {s' : Station} (parting : s.sender ≠ .running) (closed : s'.closed = s.closed) :
      Moves e now s x ((x.put e s').setIncoming e.other [])

theorem moves_send (h : x.station? e = some s) (now : Nat) : Moves e now s x (x.send e now) := by
  unfold send
  rw [h]
  dsimp only
  cases sender : s.sender with
  | done => exact .still
  | parting limit spoken =>
    have parting : s.sender ≠ .running := by simp [sender]
    dsimp only
    split_ifs
    · apply Moves.speaks parting; rfl
    · apply Moves.ends parting; rfl
    · apply Moves.late parting; rfl
    · exact .still
  | running =>
    dsimp only
    by_cases closed : s.closed.isSome = true
    · rw [if_pos closed]
      exact .parts rfl
    · rw [if_neg closed]
      cases s.sending with
      | some n =>
        dsimp only
        split_ifs
        · apply Moves.drained <;> rfl
        · apply Moves.parts; rfl
      | none =>
        cases s.outbox with
        | nil =>
          dsimp only
          split_ifs
          · exact .still
          · exact .parts rfl
        | cons chunk rest =>
          dsimp only
          split_ifs
          · apply Moves.parts; rfl
          · exact .carried rfl sender.symm
          · exact .carried rfl sender.symm

theorem standing?_send_of_ne {e' : End} (h : e' ≠ e) (now : Nat) (x : Socket) :
    (x.send e now).standing? e' = x.standing? e' := by
  cases hs : x.station? e with
  | none => simp [send, hs]
  | some s =>
    have put (s : Station) : (x.put e s).standing? e' = x.standing? e' := standing?_put_of_ne h s x
    have moves := moves_send hs now
    generalize x.send e now = y at moves ⊢
    cases moves with
    | still => rfl
    | drained | ends => exact put _
    | carried | speaks => exact (standing?_transmit ..).trans (put _)
    | late => exact (standing?_setIncoming ..).trans (put _)
    | parts =>
      unfold Socket.part
      dsimp only
      split_ifs
      · exact put _
      · exact put _
      · exact (standing?_transmit ..).trans (put _)

/-- A station whose sender is done or about to be has been closed. -/
def Sound (standing : Option CloseReason × Sender) : Prop :=
  standing.2 = .running ∨ standing.1.isSome = true

/-- A move of a sender leaves the end as it is, or closed with its first reason, which the close message
has. -/
def Tells (before after : Option CloseReason × Sender) (sent : List Packet) : Prop :=
  (after = before ∨ after.1 = CloseReason.normal.orElse before.1) ∧
    ∀ p ∈ sent, p.isClose = true → ∃ r, after.1 = some r ∧ p = Packet.farewell r

theorem tells_part (s : Station) (now : Nat) (x : Socket) :
    ∃ after, (x.part e now s).standing? e = some after ∧ after.1 = CloseReason.normal.orElse s.closed ∧
      ∀ p ∈ ((x.part e now s).outgoing e).drop (x.outgoing e).length, p.isClose = true →
        ∃ r, after.1 = some r ∧ p = Packet.farewell r := by
  unfold Socket.part
  dsimp only
  split_ifs
  · exact ⟨_, standing?_put_self .., rfl, by simp⟩
  · exact ⟨_, standing?_put_self .., rfl, by simp⟩
  · refine ⟨_, (standing?_transmit ..).trans (standing?_put_self ..), rfl, fun p hp _ => ?_⟩
    have hp : p = Packet.farewell ((s.close .normal).closed.getD .normal) := by simpa using hp
    exact ⟨_, rfl, hp⟩

theorem tells_send (h : x.station? e = some s) (sound : Sound (s.closed, s.sender)) (now : Nat) :
    ∃ after, (x.send e now).standing? e = some after ∧
      Tells (s.closed, s.sender) after (x.sent e now) := by
  have moves := moves_send h now
  unfold sent
  generalize x.send e now = y at moves ⊢
  have known (parting : s.sender ≠ .running) : ∃ r, s.closed = some r :=
    Option.isSome_iff_exists.1 (sound.resolve_left parting)
  cases moves with
  | still => exact ⟨_, by rw [standing?, h]; rfl, .inl rfl, by simp⟩
  | drained closed sender =>
    exact ⟨_, standing?_put_self .., .inl (by rw [closed, sender]), by simp⟩
  | carried closed sender =>
    refine ⟨_, (standing?_transmit ..).trans (standing?_put_self ..), .inl (by rw [closed, sender]), ?_⟩
    intro p hp close
    obtain rfl : p = _ := by simpa using hp
    cases close
  | @parts s' closed =>
    obtain ⟨after, standing, first, told⟩ := tells_part (e := e) s' now x
    exact ⟨after, standing, .inr (by rw [first, closed]), told⟩
  | speaks parting closed =>
    obtain ⟨r, hr⟩ := known parting
    refine ⟨_, (standing?_transmit ..).trans (standing?_put_self ..), .inr (by simp [closed, hr]), ?_⟩
    intro p hp _
    obtain rfl : p = Packet.farewell r := by simpa [hr] using hp
    exact ⟨r, by rw [closed, hr], rfl⟩
  | ends parting closed =>
    obtain ⟨r, hr⟩ := known parting
    exact ⟨_, standing?_put_self .., .inr (by simp [closed, hr]), by simp⟩
  | late parting closed =>
    obtain ⟨r, hr⟩ := known parting
    exact ⟨_, (standing?_setIncoming ..).trans (standing?_put_self ..), .inr (by simp [closed, hr]),
      by simp⟩

/-- An end that is closed and audible sends its reason with the next move of its sender. -/
theorem sent_of_closed (h : x.station? e = some s) (running : s.sender = .running) {r : CloseReason}
    (closed : s.closed = some r) (heard : x.isMute e s = false) (wide : x.narrow = false) (now : Nat) :
    x.sent e now = [Packet.farewell r] := by
  have parts : x.send e now = x.part e now s := by simp [send, h, running, closed]
  have heard' : x.isMute e (s.close .normal) = false := heard
  have reason : (s.close .normal).closed.getD .normal = r := by simp [Station.close, closed]
  have said : x.part e now s =
      (x.put e { s.close .normal with sender := .done }).transmit e (Packet.farewell r) := by
    simp only [Socket.part, heard', wide, reason, Bool.false_eq_true, if_false]
  rw [sent, parts, said]
  simp

end Socket

/-! ### Links -/

namespace Link

def standing? (e : End) (l : Link) : Option (Option CloseReason × Sender) :=
  match l.carrier with
  | .socket x => x.standing? e
  | _ => none

def sent (e : End) (now : Nat) (l : Link) : List Packet :=
  match l.carrier with
  | .socket x => x.sent e now
  | _ => []

variable {e e' : End} {l : Link}

theorem standing?_read (e e' : End) (l : Link) : (l.read e).2.standing? e' = l.standing? e' := by
  obtain ⟨pid, _ | _ | x⟩ := l
  · rfl
  · rfl
  · exact x.standing?_read e e'

theorem standing?_write (e e' : End) (now : Nat) (write : Writing) (l : Link) :
    (l.write e now write).2.standing? e' = l.standing? e' := by
  obtain ⟨pid, _ | _ | x⟩ := l
  · cases write <;> rfl
  · cases write <;> rfl
  · exact x.standing?_write e e' now write

theorem standing?_dropReader (e e' : End) (l : Link) :
    (l.dropReader e).standing? e' = l.standing? e' := by
  obtain ⟨pid, _ | _ | x⟩ := l
  · rfl
  · rfl
  · exact x.standing?_dropReader e e'

theorem standing?_dropWriter (e e' : End) (l : Link) :
    (l.dropWriter e).standing? e' = l.standing? e' := by
  obtain ⟨pid, _ | _ | x⟩ := l
  · rfl
  · rfl
  · exact x.standing?_dropWriter e e'

theorem standing?_close (e e' : End) (reason : CloseReason) (l : Link) :
    (l.close e reason).standing? e' =
      if e' = e then (l.standing? e').map (Prod.map reason.orElse id) else l.standing? e' := by
  obtain ⟨pid, _ | _ | x⟩ := l
  · exact (ite_self none).symm
  · exact (ite_self none).symm
  · exact x.standing?_close e e' reason

theorem standing?_send_of_ne (h : e' ≠ e) (now : Nat) (l : Link) :
    (l.send e now).standing? e' = l.standing? e' := by
  obtain ⟨pid, _ | _ | x⟩ := l
  · rfl
  · rfl
  · exact x.standing?_send_of_ne h now

theorem tells_send {before : Option CloseReason × Sender} (h : l.standing? e = some before)
    (sound : Socket.Sound before) (now : Nat) :
    ∃ after, (l.send e now).standing? e = some after ∧ Socket.Tells before after (l.sent e now) := by
  obtain ⟨pid, _ | _ | x⟩ := l
  · cases h
  · cases h
  · obtain ⟨s, hs, rfl⟩ := Option.map_eq_some_iff.1 (show x.standing? e = some before from h)
    exact Socket.tells_send hs sound now

end Link

/-! ### A world -/

namespace World

variable {E : Type} {w : World E} {o o' : Outlet}

def standing? (o : Outlet) (w : World E) : Option (Option CloseReason × Sender) :=
  w.links[o.link]?.bind (·.standing? o.side)

theorem standing?_onLink {k : Nat} {f : Link → Link}
    (hf : ∀ l, k = o.link → w.links[k]? = some l → (f l).standing? o.side = l.standing? o.side) :
    (w.onLink k f).standing? o = w.standing? o := by
  simp only [standing?, onLink, List.getElem?_modify]
  by_cases hk : k = o.link
  · subst hk
    cases hl : w.links[o.link]? with
    | none => rfl
    | some l => simpa using hf l rfl hl
  · simp [hk]

theorem standing?_read (o' : Outlet) (w : World E) : (w.read o').2.standing? o = w.standing? o := by
  unfold World.read link?
  cases hl : w.links[o'.link]? with
  | none => rfl
  | some link =>
    apply standing?_onLink
    intro l _ same
    obtain rfl := Option.some.inj (hl.symm.trans same)
    exact Link.standing?_read ..

theorem standing?_write (o' : Outlet) (write : Writing) (w : World E) :
    (w.write o' write).2.standing? o = w.standing? o := by
  unfold World.write link?
  cases hl : w.links[o'.link]? with
  | none => rfl
  | some link =>
    apply standing?_onLink
    intro l _ same
    obtain rfl := Option.some.inj (hl.symm.trans same)
    exact Link.standing?_write ..

theorem standing?_dropReader (o' : Outlet) (w : World E) :
    (w.dropReader o').standing? o = w.standing? o :=
  standing?_onLink fun l _ _ => l.standing?_dropReader o'.side o.side

theorem standing?_dropWriter (o' : Outlet) (w : World E) :
    (w.dropWriter o').standing? o = w.standing? o :=
  standing?_onLink fun l _ _ => l.standing?_dropWriter o'.side o.side

theorem standing?_close_self (reason : CloseReason) (w : World E) :
    (w.close o reason).standing? o = (w.standing? o).map (Prod.map reason.orElse id) := by
  simp only [standing?, World.close, onLink, List.getElem?_modify_eq]
  cases w.links[o.link]? with
  | none => rfl
  | some l => simp [Link.standing?_close]

theorem side_ne (h : o' ≠ o) (same : o'.link = o.link) : o.side ≠ o'.side := by
  rintro side
  obtain ⟨k, e⟩ := o
  obtain ⟨k', e'⟩ := o'
  exact h (by simp_all)

theorem standing?_close_of_ne (h : o' ≠ o) (reason : CloseReason) (w : World E) :
    (w.close o' reason).standing? o = w.standing? o := by
  apply standing?_onLink
  intro l same _
  rw [Link.standing?_close, if_neg (side_ne h same)]

theorem standing?_send_of_ne (h : o' ≠ o) (now : Nat) (w : World E) :
    (w.onLink o'.link (·.send o'.side now)).standing? o = w.standing? o := by
  apply standing?_onLink
  intro l same _
  exact l.standing?_send_of_ne (side_ne h same) now

def sent (o : Outlet) (t : Task) (w : World E) : List Packet :=
  if t = .sender o then w.links[o.link]?.elim [] (·.sent o.side w.now) else []

theorem tells_send {before : Option CloseReason × Sender} (h : w.standing? o = some before)
    (sound : Socket.Sound before) [Engine E] :
    ∃ after, (w.move (.sender o)).standing? o = some after ∧
      Socket.Tells before after (w.sent o (.sender o)) := by
  obtain ⟨l, hl, standing⟩ := Option.bind_eq_some_iff.1 h
  obtain ⟨after, standing', tells⟩ := Link.tells_send standing sound w.now
  refine ⟨after, ?_, by simpa [sent, hl] using tells⟩
  simp only [move, standing?, onLink, List.getElem?_modify_eq, hl]
  exact standing'

/-! ### What a site closes -/

theorem closeAll_cons (attached : List (PathId × Outlet)) (q : PathId) (r : CloseReason)
    (rest : List (PathId × CloseReason)) (w : World E) :
    w.closeAll attached ((q, r) :: rest) = closeAll attached rest
      (match attached.lookup q with
        | some outlet => w.close outlet r
        | none => w) := rfl

theorem standing?_closeAll {attached : List (PathId × Outlet)} {closes : List (PathId × CloseReason)}
    {reason : CloseReason} (one : ∀ e ∈ closes, attached.lookup e.1 = some o → e.2 = reason)
    (w : World E) : (w.closeAll attached closes).standing? o =
      if ∃ e ∈ closes, attached.lookup e.1 = some o then
        (w.standing? o).map (Prod.map reason.orElse id)
      else w.standing? o := by
  induction closes generalizing w with
  | nil => simp [closeAll]
  | cons e rest ih =>
    obtain ⟨q, r⟩ := e
    have later := ih (fun e he => one e (List.mem_cons_of_mem _ he))
    rw [closeAll_cons, later]
    simp only [List.exists_mem_cons_iff]
    cases known : attached.lookup q with
    | none => simp only [reduceCtorEq, false_or]
    | some o' =>
      by_cases same : o' = o
      · subst same
        obtain rfl : r = reason := one (q, r) List.mem_cons_self known
        simp only [standing?_close_self, true_or, if_true]
        split_ifs
        · cases w.standing? o' with
          | none => rfl
          | some before => rfl
        · rfl
      · simp only [standing?_close_of_ne same, Option.some.injEq, same, false_or]

theorem standing?_dropAll (attached : List (PathId × Outlet)) (before after : Race) (w : World E) :
    (w.dropAll attached before after).standing? o = w.standing? o := by
  unfold dropAll
  refine foldl_keeps (p := standing? o) (fun w e => ?_) _ _
  dsimp only
  split_ifs
  · exact (standing?_dropWriter ..).trans (standing?_dropReader ..)
  · exact standing?_dropWriter ..
  · exact standing?_dropReader ..
  · rfl

end World

end PathRace
