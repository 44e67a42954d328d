import PathRace.Proofs.Race.Pumps
import PathRace.Proofs.World.Sites

/-! In-process links in a world. A link keeps its kind; a site that carries out a change of its race
closes the links of the paths that the race has closed (`closed_carryOut`) and does not touch those that
the race still owns (`loop?_carryOut_of_kept`). -/

namespace PathRace

namespace Loopback

/-- If the old link was closed, so is the new one. -/
structure Later (l l' : Loopback) : Prop where
  capacity : l'.capacity = l.capacity
  closed : l.closed.isSome = true → l'.closed.isSome = true

theorem Later.refl (l : Loopback) : l.Later l := ⟨rfl, id⟩

theorem Later.trans {a b c : Loopback} (h : a.Later b) (k : b.Later c) : a.Later c :=
  ⟨k.capacity.trans h.capacity, k.closed ∘ h.closed⟩

theorem capacity_setInward (e : End) (q : Queue) (l : Loopback) :
    (l.setInward e q).capacity = l.capacity := by cases e <;> rfl

@[simp] theorem closed_setInward (e : End) (q : Queue) (l : Loopback) :
    (l.setInward e q).closed = l.closed := by cases e <;> rfl

@[simp] theorem inward_setInward_self (e : End) (q : Queue) (l : Loopback) :
    (l.setInward e q).inward e = q := by cases e <;> rfl

@[simp] theorem inward_setInward_other (e : End) (q : Queue) (l : Loopback) :
    (l.setInward e q).inward e.other = l.inward e.other := by cases e <;> rfl

theorem later_setInward (e : End) (q : Queue) (l : Loopback) : l.Later (l.setInward e q) :=
  ⟨capacity_setInward e q l, by rw [closed_setInward]; exact id⟩

theorem isSome_close (reason : CloseReason) (l : Loopback) :
    (l.close reason).closed.isSome = true := rfl

theorem later_close (reason : CloseReason) (l : Loopback) : l.Later (l.close reason) :=
  ⟨rfl, fun _ => rfl⟩

end Loopback

namespace World

variable {E : Type} {w : World E} {k : Nat} {l : Loopback} {o : Outlet}

/-- Link `k`, if it is a loopback. -/
def loop? (k : Nat) (w : World E) : Option Loopback :=
  match w.links[k]? with
  | some ⟨_, .loopback l⟩ => some l
  | _ => none

theorem link_of_loop? (h : w.loop? k = some l) : ∃ pid, w.links[k]? = some ⟨pid, .loopback l⟩ := by
  unfold loop? at h
  split at h
  · rename_i pid x hk
    obtain rfl := Option.some.inj h
    exact ⟨pid, hk⟩
  · cases h

theorem loop?_onLink_of_ne {i : Nat} (other : i ≠ k) (f : Link → Link) (w : World E) :
    (w.onLink i f).loop? k = w.loop? k := by
  simp only [loop?, onLink, List.getElem?_modify_ne _ _ other]

theorem loop?_onLink_self {f : Link → Link} {l' : Loopback} (h : w.loop? k = some l)
    (hf : ∀ pid, ∃ pid', f ⟨pid, .loopback l⟩ = ⟨pid', .loopback l'⟩) :
    (w.onLink k f).loop? k = some l' := by
  obtain ⟨pid, hk⟩ := link_of_loop? h
  obtain ⟨pid', he⟩ := hf pid
  simp only [loop?, onLink, List.getElem?_modify_eq, hk, Option.map_eq_map, Option.map_some, he]

/-- Only links have changed. -/
structure Relinked (w w' : World E) : Prop where
  operation : w'.operation = w.operation
  background : w'.background = w.background
  sites : w'.sites = w.sites

theorem relinked_onLink (i : Nat) (f : Link → Link) (w : World E) : w.Relinked (w.onLink i f) :=
  ⟨rfl, rfl, rfl⟩

theorem relinked_read (o : Outlet) (w : World E) : w.Relinked (w.read o).2 := by
  unfold World.read
  split
  · exact ⟨rfl, rfl, rfl⟩
  · exact relinked_onLink ..

theorem relinked_write (o : Outlet) (write : Writing) (w : World E) :
    w.Relinked (w.write o write).2 := by
  unfold World.write
  split
  · exact ⟨rfl, rfl, rfl⟩
  · exact relinked_onLink ..

/-! ### One end of a link -/

theorem read_of_loop? (h : w.loop? o.link = some l) : (w.read o).1 = (l.read o.side).1 ∧
    (w.read o).2.loop? o.link = some (l.read o.side).2 ∧
    ∀ k, k ≠ o.link → (w.read o).2.loop? k = w.loop? k := by
  obtain ⟨pid, hk⟩ := link_of_loop? h
  have he : w.read o = ((l.read o.side).1,
      w.onLink o.link fun _ => ⟨pid, .loopback (l.read o.side).2⟩) := by
    simp only [World.read, link?, hk, Link.read]
  rw [he]
  exact ⟨rfl, loop?_onLink_self h fun _ => ⟨pid, rfl⟩, fun k hk => loop?_onLink_of_ne hk.symm _ w⟩

theorem write_of_loop? (h : w.loop? o.link = some l) (chunk : Bytes) :
    (w.write o (.offered chunk)).1 = (l.write o.side chunk).1 ∧
    (w.write o (.offered chunk)).2.loop? o.link = some (l.write o.side chunk).2 ∧
    ∀ k, k ≠ o.link → (w.write o (.offered chunk)).2.loop? k = w.loop? k := by
  obtain ⟨pid, hk⟩ := link_of_loop? h
  have he : w.write o (.offered chunk) = ((l.write o.side chunk).1,
      w.onLink o.link fun _ => ⟨pid, .loopback (l.write o.side chunk).2⟩) := by
    simp only [World.write, link?, hk, Link.write]
  rw [he]
  exact ⟨rfl, loop?_onLink_self h fun _ => ⟨pid, rfl⟩, fun k hk => loop?_onLink_of_ne hk.symm _ w⟩

theorem canRead_of_loop? (h : w.loop? o.link = some l) : w.canRead o = l.canRead o.side := by
  obtain ⟨pid, hk⟩ := link_of_loop? h
  simp [World.canRead, link?, hk, Link.canRead]

theorem canWrite_of_loop? (h : w.loop? o.link = some l) (write : Writing) :
    w.canWrite o write = l.canWrite o.side := by
  obtain ⟨pid, hk⟩ := link_of_loop? h
  simp [World.canWrite, link?, hk, Link.canWrite]

theorem loop?_send (o : Outlet) (now : Nat) (h : w.loop? k = some l) :
    (w.onLink o.link (·.send o.side now)).loop? k = some l := by
  by_cases hk : o.link = k
  · subst hk
    exact loop?_onLink_self h fun pid => ⟨pid, rfl⟩
  · exact (loop?_onLink_of_ne hk _ w).trans h

/-! ### Closes and dropped halves -/

theorem later_onLink {i : Nat} {f : Link → Link} (h : w.loop? k = some l)
    (hf : ∀ l : Loopback, ∃ l', (∀ pid, f ⟨pid, .loopback l⟩ = ⟨pid, .loopback l'⟩) ∧ l.Later l') :
    ∃ l', (w.onLink i f).loop? k = some l' ∧ l.Later l' := by
  by_cases hi : i = k
  · subst hi
    obtain ⟨l', he, later⟩ := hf l
    exact ⟨l', loop?_onLink_self h fun pid => ⟨pid, he pid⟩, later⟩
  · exact ⟨l, (loop?_onLink_of_ne hi f w).trans h, .refl l⟩

theorem later_close (o : Outlet) (reason : CloseReason) (h : w.loop? k = some l) :
    ∃ l', (w.close o reason).loop? k = some l' ∧ l.Later l' :=
  later_onLink h fun l => ⟨_, fun _ => rfl, l.later_close reason⟩

theorem later_dropReader (o : Outlet) (h : w.loop? k = some l) :
    ∃ l', (w.dropReader o).loop? k = some l' ∧ l.Later l' :=
  later_onLink h fun l => ⟨_, fun _ => rfl, l.later_setInward ..⟩

theorem later_dropWriter (o : Outlet) (h : w.loop? k = some l) :
    ∃ l', (w.dropWriter o).loop? k = some l' ∧ l.Later l' :=
  later_onLink h fun l => ⟨_, fun _ => rfl, l.later_setInward ..⟩

theorem later_foldl {α : Type} {f : World E → α → World E}
    (hf : ∀ (w : World E) (a : α) (l : Loopback), w.loop? k = some l →
      ∃ l', (f w a).loop? k = some l' ∧ l.Later l') (as : List α) (h : w.loop? k = some l) :
    ∃ l', (as.foldl f w).loop? k = some l' ∧ l.Later l' := by
  induction as generalizing w l with
  | nil => exact ⟨l, h, .refl l⟩
  | cons a as ih =>
    obtain ⟨l₁, h₁, later₁⟩ := hf w a l h
    obtain ⟨l₂, h₂, later₂⟩ := ih h₁
    exact ⟨l₂, h₂, later₁.trans later₂⟩

variable {attached : List (PathId × Outlet)} {before after : Race}

/-- The first half of `carryOut`. -/
def closeAll (attached : List (PathId × Outlet)) (closes : List (PathId × CloseReason)) (w : World E) :
    World E :=
  closes.foldl (fun w (pid, reason) =>
    match attached.lookup pid with
    | some outlet => w.close outlet reason
    | none => w) w

/-- The second half of `carryOut`. -/
def dropAll (attached : List (PathId × Outlet)) (before after : Race) (w : World E) : World E :=
  attached.foldl (fun w (pid, outlet) =>
    let w := if before.holdsReader pid && !after.holdsReader pid then w.dropReader outlet else w
    if before.holdsWriter pid && !after.holdsWriter pid then w.dropWriter outlet else w) w

theorem carryOut_eq (attached : List (PathId × Outlet)) (before after : Race) (w : World E) :
    w.carryOut attached before after =
      (w.closeAll attached (after.closes.drop before.closes.length)).dropAll attached before after := rfl

theorem later_closeAll (attached : List (PathId × Outlet)) (closes : List (PathId × CloseReason))
    (h : w.loop? k = some l) :
    ∃ l', (w.closeAll attached closes).loop? k = some l' ∧ l.Later l' := by
  refine later_foldl (fun w e l h => ?_) closes h
  obtain ⟨pid, reason⟩ := e
  dsimp only
  split
  · exact later_close _ _ h
  · exact ⟨l, h, .refl l⟩

theorem later_dropAll (attached : List (PathId × Outlet)) (before after : Race)
    (h : w.loop? k = some l) :
    ∃ l', (w.dropAll attached before after).loop? k = some l' ∧ l.Later l' := by
  refine later_foldl (fun w e l h => ?_) attached h
  obtain ⟨pid, o⟩ := e
  obtain ⟨l₁, h₁, later₁⟩ : ∃ l₁, (if before.holdsReader pid && !after.holdsReader pid then
      w.dropReader o else w).loop? k = some l₁ ∧ l.Later l₁ := by
    split_ifs
    · exact later_dropReader o h
    · exact ⟨l, h, .refl l⟩
  dsimp only
  generalize (if before.holdsReader pid && !after.holdsReader pid then w.dropReader o else w) = w₁ at h₁ ⊢
  split_ifs
  · obtain ⟨l₂, h₂, later₂⟩ := later_dropWriter o h₁
    exact ⟨l₂, h₂, later₁.trans later₂⟩
  · exact ⟨l₁, h₁, later₁⟩

theorem later_carryOut (attached : List (PathId × Outlet)) (before after : Race)
    (h : w.loop? k = some l) :
    ∃ l', (w.carryOut attached before after).loop? k = some l' ∧ l.Later l' := by
  obtain ⟨l₁, h₁, later₁⟩ := later_closeAll attached (after.closes.drop before.closes.length) h
  obtain ⟨l₂, h₂, later₂⟩ := later_dropAll attached before after h₁
  exact ⟨l₂, h₂, later₁.trans later₂⟩

/-- If the race has just closed a path, its link is closed. -/
theorem closed_carryOut {pid : PathId} {reason : CloseReason} (known : attached.lookup pid = some o)
    (hc : (pid, reason) ∈ after.closes.drop before.closes.length) (h : w.loop? o.link = some l) :
    ∃ l', (w.carryOut attached before after).loop? o.link = some l' ∧ l'.closed.isSome = true := by
  obtain ⟨earlier, later, split⟩ := List.append_of_mem hc
  obtain ⟨l₁, h₁, -⟩ := later_closeAll attached earlier h
  have closed : ((w.closeAll attached earlier).close o reason).loop? o.link =
      some (l₁.close reason) := loop?_onLink_self h₁ fun pid => ⟨pid, rfl⟩
  obtain ⟨l₂, h₂, later₂⟩ := later_closeAll attached later closed
  obtain ⟨l₃, h₃, later₃⟩ := later_dropAll attached before after h₂
  refine ⟨l₃, ?_, later₃.closed (later₂.closed (l₁.isSome_close reason))⟩
  rw [carryOut_eq, split, closeAll, List.foldl_append, List.foldl_cons]
  simp only [known]
  exact h₃

/-- The link of a path that the race still owns is unchanged. -/
theorem loop?_carryOut_of_kept
    (closes : ∀ e ∈ after.closes.drop before.closes.length, ∀ o, attached.lookup e.1 = some o →
      o.link ≠ k)
    (held : ∀ e ∈ attached, e.2.link = k → after.holdsReader e.1 = true ∧ after.holdsWriter e.1 = true) :
    (w.carryOut attached before after).loop? k = w.loop? k := by
  have closed : (w.closeAll attached (after.closes.drop before.closes.length)).loop? k = w.loop? k := by
    unfold closeAll
    refine List.foldlRecOn (motive := fun (w' : World E) => w'.loop? k = w.loop? k) _ _ rfl
      fun w' hw' e he => ?_
    obtain ⟨pid, reason⟩ := e
    dsimp only
    split
    · rename_i o known
      exact (loop?_onLink_of_ne (closes _ he o known) _ w').trans hw'
    · exact hw'
  rw [carryOut_eq, ← closed, dropAll]
  generalize w.closeAll attached (after.closes.drop before.closes.length) = w₁
  refine List.foldlRecOn (motive := fun (w' : World E) => w'.loop? k = w₁.loop? k) _ _ rfl
    fun w' hw' e he => ?_
  obtain ⟨pid, o⟩ := e
  by_cases hk : o.link = k
  · obtain ⟨reader, writer⟩ := held _ he hk
    simpa [reader, writer] using hw'
  · have dropped {c : Bool} {drop : World E → World E} (hd : ∀ w, (drop w).loop? k = w.loop? k)
        (w : World E) : (if c then drop w else w).loop? k = w.loop? k := by
      split_ifs
      · exact hd w
      · rfl
    have reader := dropped (c := before.holdsReader pid && !after.holdsReader pid)
      (loop?_onLink_of_ne hk (·.dropReader o.side)) w'
    exact (dropped (loop?_onLink_of_ne hk (·.dropWriter o.side)) _).trans (reader.trans hw')

end World

end PathRace
