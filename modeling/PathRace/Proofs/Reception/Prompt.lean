import PathRace.Proofs.Election.Announcement
import PathRace.Proofs.Exchange.Timeless

/-! Elections that decide at once: the engine is not the nominator, or the policy takes the first ready
path. Such an election requests at most the path whose frame it has just processed
(`onReady_of_prompt`), so the result of a frame depends neither on the clock nor on the bytes behind the
frame (`accept_via`). -/

namespace PathRace

theorem Outcome.timeless_timeless (o : Outcome) : o.timeless.timeless = o.timeless := by
  obtain ⟨_ | rtt | hash, out, ulp⟩ := o <;> rfl

namespace Exchange

variable {S : Suite}

def Knows (x : Exchange S) (pid : PathId) : Prop := (x.strand? pid).isSome = true

theorem Turned.knows {x x' : Exchange S} {pid : PathId} {old new : Strand} {used : List Sealing}
    (t : Turned x x' pid old new used) : x'.Knows pid := by
  rw [Knows, t.after]
  rfl

theorem Knows.nominate {x : Exchange S} {pid : PathId} (h : x.Knows pid) :
    (x.nominate pid).2.Knows pid ∧ (x.nominate pid).2.device = x.device ∧
      (x.nominate pid).2.buffered pid = x.buffered pid := by
  have after : (x.call (.nominate pid)).2 = (x.nominate pid).2 := rfl
  have turn := turn_nominate x pid
  rw [after] at turn
  generalize x.yields (.nominate pid) = ys, (x.nominate pid).2 = x' at turn
  cases turn with
  | still => exact ⟨h, rfl, rfl⟩
  | turned deed turned =>
    cases deed with
    | nominated | exhausted =>
      exact ⟨turned.knows, turned.device,
        (buffered_of_strand? turned.after).trans (buffered_of_strand? turned.before).symm⟩

theorem Knows.addChunk {x : Exchange S} {pid : PathId} (h : x.Knows pid) (chunk : Bytes) :
    x.addChunk pid chunk = (.ok (), x.push pid chunk) := by
  obtain ⟨strand, hs⟩ := Option.isSome_iff_exists.1 h
  refine Prod.ext ?_ rfl
  simp [Exchange.addChunk, hs]

/-- A change to an exchange that does not affect a nomination of `pid`. -/
structure Blind (pid : PathId) (g : Exchange S → Exchange S) : Prop where
  nominator : ∀ x, (g x).device.isNominator = x.device.isNominator
  nominated : ∀ x, (g x).nominated = x.nominated
  nominate : ∀ x, (g x).nominate pid = ((x.nominate pid).1, g (x.nominate pid).2)
  knows : ∀ x, x.Knows pid → (g x).Knows pid

theorem blind_push (pid : PathId) (more : Bytes) : Blind pid (push (S := S) pid more) where
  nominator x := congrArg Device.isNominator (x.device_push pid more)
  nominated x := x.nominated_push pid more
  nominate x := x.nominate_push pid more
  knows x h := by
    obtain ⟨⟨inbox, stage⟩, hs⟩ := Option.isSome_iff_exists.1 h
    rw [Knows, strand?_push hs]
    rfl

theorem blind_timeless (pid : PathId) : Blind pid (timeless (S := S)) where
  nominator _ := rfl
  nominated _ := rfl
  nominate x := x.nominate_timeless pid
  knows x h := by rwa [Knows, strand?_timeless, Option.isSome_map]

end Exchange

namespace Election

section

variable {E : Type} [Engine E] {e : Election E} {pid : PathId}

/-- The engine does not nominate, or the policy is eager. -/
def Prompt (e : Election E) : Prop :=
  Engine.isNominator e.engine = false ∨ e.shortlist.policy = .eager

/-- What `onReady` does for a prompt election. -/
def urge (pid : PathId) (e : Election E) : Except Failure (List Action) × Election E :=
  if ¬ Engine.isNominator e.engine ∨ e.shortlist.requested.isSome then (.ok [], e)
  else { e with shortlist := { e.shortlist with requested := some pid } }.nominate pid

theorem onReady_of_prompt (h : e.Prompt) (pid : PathId) (now rtt : Nat) :
    e.onReady pid now rtt = e.urge pid := by
  unfold onReady urge
  by_cases nominator : Engine.isNominator e.engine = true
  · have eager : e.shortlist.policy = .eager := by
      rcases h with h | h
      · rw [nominator] at h; cases h
      · exact h
    simp only [nominator, not_true_eq_false, if_false, false_or, Shortlist.onReady, eager]
    cases hr : e.shortlist.requested with
    | some other => rfl
    | none => simp [Shortlist.request, hr, eager]
  · simp [nominator]

end

variable {S : Suite} {e e' : Election (Exchange S)} {pid : PathId} {actions : List Action}
  {g : Exchange S → Exchange S}

def via (g : Exchange S → Exchange S) (e : Election (Exchange S)) : Election (Exchange S) :=
  { e with engine := g e.engine }

theorem Prompt.turned (h : e.Prompt) {x' : Exchange S} {old new : Strand} {used : List Sealing}
    (t : Exchange.Turned e.engine x' pid old new used) : Prompt { e with engine := x' } :=
  h.imp_left (congrArg Device.isNominator t.device).trans

theorem Prompt.via (h : e.Prompt) (blind : Exchange.Blind pid g) : (e.via g).Prompt :=
  h.imp_left fun h => (blind.nominator e.engine).trans h

/-- Outcomes that differ only in a round trip are accepted alike, also after a change that does not
affect nominations. -/
theorem accept_of_blind (blind : Exchange.Blind pid g) {o o' : Outcome} (same : o'.timeless = o.timeless)
    {onReady onReady' : Nat → Election (Exchange S) → Except Failure (List Action) × Election (Exchange S)}
    (ready : ∀ rtt rtt', onReady' rtt' (e.via g) = ((onReady rtt e).1, (onReady rtt e).2.via g)) :
    (e.via g).accept pid o' onReady' =
      ((e.accept pid o onReady).1, (e.accept pid o onReady).2.via g) := by
  obtain ⟨update, out, ulp⟩ := o
  obtain ⟨update', out', ulp'⟩ := o'
  simp only [Outcome.timeless, Outcome.mk.injEq] at same
  obtain ⟨same, rfl, rfl⟩ := same
  have named : Engine.nominatedPath (e.via g).engine = Engine.nominatedPath e.engine :=
    blind.nominated e.engine
  unfold accept
  by_cases hu : ulp'.isSome = true
  · simp only [hu, if_true]
    rfl
  · simp only [hu, Bool.false_eq_true, if_false]
    rcases update with _ | rtt | hash <;> rcases update' with _ | rtt' | hash' <;>
      simp [Update.timeless] at same
    · rfl
    · simp only [ready rtt rtt']
    · subst same
      dsimp only
      rw [named]
      split_ifs <;> rfl

theorem nominate_via (blind : Exchange.Blind pid g) :
    (e.via g).nominate pid = ((e.nominate pid).1, (e.nominate pid).2.via g) := by
  have asked : Engine.nominate pid (e.via g).engine =
      ((Engine.nominate pid e.engine).1, g (Engine.nominate pid e.engine).2) := blind.nominate e.engine
  unfold Election.nominate
  rw [asked]
  rcases Engine.nominate pid e.engine with ⟨fault | o, engine⟩
  · rfl
  · exact accept_of_blind (e := { e with engine }) blind rfl fun _ _ => rfl

theorem urge_via (blind : Exchange.Blind pid g) :
    (e.via g).urge pid = ((e.urge pid).1, (e.urge pid).2.via g) := by
  have nominator : Engine.isNominator (e.via g).engine = Engine.isNominator e.engine :=
    blind.nominator e.engine
  have listed : (e.via g).shortlist = e.shortlist := rfl
  unfold urge
  rw [nominator, listed]
  split_ifs
  · rfl
  · exact nominate_via (e := { e with shortlist := { e.shortlist with requested := some pid } }) blind

theorem accept_via (h : e.Prompt) (blind : Exchange.Blind pid g) {o o' : Outcome}
    (same : o'.timeless = o.timeless) (now now' : Nat) :
    (e.via g).accept pid o' (onReady pid now') =
      ((e.accept pid o (onReady pid now)).1, (e.accept pid o (onReady pid now)).2.via g) :=
  accept_of_blind blind same fun rtt rtt' => by
    rw [onReady_of_prompt (h.via blind), onReady_of_prompt h, urge_via blind]

/-! ### What is announced -/

/-- The election is still open, or it is over and `pid` has won. -/
structure Follows (pid : PathId) (e e' : Election (Exchange S)) (actions : List Action) : Prop where
  device : e'.engine.device = e.engine.device
  policy : e'.shortlist.policy = e.shortlist.policy
  knows : e'.engine.Knows pid
  buffered : e'.engine.buffered pid = e.engine.buffered pid
  ended : (winners actions = [] ∧ e'.phase = .nominating) ∨
    ∃ hash, winners actions = [(pid, hash)] ∧ e'.phase = .nominated

theorem follows_nominate (hp : e.phase = .nominating) (knows : e.engine.Knows pid)
    (h : e.nominate pid = (.ok actions, e')) : Follows pid e e' actions := by
  obtain ⟨knows, device, buffered⟩ := knows.nominate
  have asked : Engine.nominate pid e.engine = e.engine.nominate pid := rfl
  unfold Election.nominate at h
  rcases ha : e.engine.nominate pid with ⟨fault | o, engine⟩ <;> rw [asked, ha] at h <;>
    rw [ha] at knows device buffered
  · simp at h
  · rcases accept_cases h with ⟨-, rfl, rfl⟩ | ⟨rtt, more, -, hr, rfl⟩ | ⟨hash, -, -, rfl, rfl⟩
    · exact ⟨device, rfl, knows, buffered, .inl ⟨winners_map_send .., hp⟩⟩
    · obtain ⟨rfl, rfl⟩ : [] = more ∧ _ = e' := by simpa using hr
      exact ⟨device, rfl, knows, buffered, .inl ⟨by simp, hp⟩⟩
    · exact ⟨device, rfl, knows, buffered, .inr ⟨hash, by simp, rfl⟩⟩

theorem follows_accept (prompt : e.Prompt) (hp : e.phase = .nominating) (knows : e.engine.Knows pid)
    {o : Outcome} {now : Nat} (h : e.accept pid o (onReady pid now) = (.ok actions, e')) :
    Follows pid e e' actions := by
  rcases accept_cases h with ⟨-, rfl, rfl⟩ | ⟨rtt, more, -, hr, rfl⟩ | ⟨hash, -, -, rfl, rfl⟩
  · exact ⟨rfl, rfl, knows, rfl, .inl ⟨winners_map_send .., hp⟩⟩
  · rw [onReady_of_prompt prompt] at hr
    unfold urge at hr
    split_ifs at hr
    · obtain ⟨rfl, rfl⟩ : [] = more ∧ e = e' := by simpa using hr
      exact ⟨rfl, rfl, knows, rfl, .inl ⟨by simp, hp⟩⟩
    · obtain ⟨device, policy, knows, buffered, ended⟩ := follows_nominate (e := { e with
        shortlist := { e.shortlist with requested := some pid } }) hp knows hr
      exact ⟨device, policy, knows, buffered, by simpa using ended⟩
  · exact ⟨rfl, rfl, knows, rfl, .inr ⟨hash, by simp, rfl⟩⟩

theorem Follows.prompt (h : Follows pid e e' actions) (prompt : e.Prompt) : e'.Prompt :=
  prompt.imp (fun nominator => (congrArg Device.isNominator h.device).trans nominator)
    fun eager => h.policy.trans eager

end Election

end PathRace
