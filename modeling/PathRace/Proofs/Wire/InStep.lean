import PathRace.Proofs.Wire.Plain

/-! The two ends of a lane and their counters. A use that succeeds takes one number, a use that fails
takes none (`goes_use`), so no number repeats. A nonce determines its path, direction and number, so the
decrypting end accepts exactly the next ciphertext of the encrypting end (`in_step`). -/

namespace PathRace

def Sealing.ciphertext (S : Suite) (u : Sealing) : Bytes := S.encrypt u.key u.nonce u.plaintext

namespace Lane

inductive Use
  | encrypt (plaintext : Bytes)
  | decrypt (ciphertext : Bytes)

def use (S : Suite) (u : Use) (l : Lane) : Except CryptoFault Bytes × Lane :=
  match u with
  | .encrypt plaintext => l.encrypt S plaintext
  | .decrypt ciphertext => l.decrypt S ciphertext

/-- The results of a list of uses, and the lane after them. -/
def run (S : Suite) : List Use → Lane → List (Except CryptoFault Bytes) × Lane
  | [], l => ([], l)
  | u :: us, l =>
    let (answer, l) := l.use S u
    let (answers, l) := run S us l
    (answer :: answers, l)

def results (answers : List (Except CryptoFault Bytes)) : List Bytes :=
  answers.filterMap Except.toOption

def Use.sealed (l : Lane) : Use → List Sealing
  | .encrypt plaintext => if l.isExhausted then [] else [l.sealing plaintext]
  | .decrypt _ => []

/-- What a list of uses seals. -/
def sealings (S : Suite) : List Use → Lane → List Sealing
  | [], _ => []
  | u :: us, l => u.sealed l ++ sealings S us (l.use S u).2

/-- The number of counter values that a lane can still use. -/
def left (l : Lane) : Nat := 2 ^ 64 - 1 - l.counter.toNat

/-- The ideal cipher: what opens on the lane has been sealed under its key and nonce. -/
def Authentic (S : Suite) (sealed : List Sealing) (l : Lane) (c : Bytes) : Prop :=
  (S.decrypt l.key l.nonce c).isSome = true →
    ∃ u ∈ sealed, u.key = l.key ∧ u.nonce = l.nonce ∧ u.ciphertext S = c

variable {S : Suite} {l : Lane}

/-! ### Numbers -/

theorem isExhausted_iff : l.isExhausted = true ↔ l.left = 0 := by
  have below := l.counter.toNat_lt
  have last : (0xffffffffffffffff : UInt64).toNat = 2 ^ 64 - 1 := rfl
  rw [isExhausted, beq_iff_eq, ← UInt64.toNat_inj, last, left]
  omega

theorem left_advance (fresh : l.isExhausted = false) : l.left = l.advance.left + 1 := by
  have some_left : l.left ≠ 0 := fun none => by
    rw [isExhausted_iff.2 none] at fresh
    cases fresh
  have next := counter_advance fresh
  simp only [left] at some_left ⊢
  omega

theorem counter_add_lt {n : Nat} (h : n ≤ l.left) : l.counter.toNat + n < 2 ^ 64 := by
  have below := l.counter.toNat_lt
  simp only [left] at h
  omega

theorem fields_iterate (l : Lane) (n : Nat) :
    (advance^[n] l).key = l.key ∧ (advance^[n] l).pid = l.pid ∧
      (advance^[n] l).direction = l.direction := by
  induction n with
  | zero => exact ⟨rfl, rfl, rfl⟩
  | succ n ih => rw [Function.iterate_succ_apply']; exact ih

theorem nonce_inj {l m : Lane} (key : l.key = m.key) (nonce : l.nonce = m.nonce) : l = m := by
  obtain ⟨pid, direction, counter⟩ := Nonce.make_inj nonce
  cases l
  cases m
  simp_all

theorem iterate_inj {i j : Nat} (hi : i ≤ l.left) (hj : j ≤ l.left)
    (h : advance^[i] l = advance^[j] l) : i = j := by
  have counters := congrArg (fun l => l.counter.toNat) h
  simp only [counter_iterate (counter_add_lt hi), counter_iterate (counter_add_lt hj)] at counters
  omega

theorem left_iterate {n : Nat} (h : n ≤ l.left) : (advance^[n] l).left = l.left - n := by
  rw [left, counter_iterate (counter_add_lt h), left]
  omega

/-! ### Uses -/

theorem use_of_exhausted (worn : l.isExhausted = true) (u : Use) :
    l.use S u = (.error .counterExhaustion, l) := by
  cases u with
  | encrypt => simp [use, encrypt, worn]
  | decrypt => simp [use, decrypt, worn]

/-- A use fails without a change, or takes the next counter value. -/
inductive Goes (S : Suite) (u : Use) (l : Lane) : Except CryptoFault Bytes × Lane → Prop
  | failed {fault : CryptoFault} (nothing : u.sealed l = []) : Goes S u l (.error fault, l)
  | went {result : Bytes} (fresh : l.isExhausted = false)
      (sealed : u.sealed l = [] ∨ ∃ plaintext, u.sealed l = [l.sealing plaintext]) :
      Goes S u l (.ok result, l.advance)

theorem goes_use (u : Use) (l : Lane) : Goes S u l (l.use S u) := by
  cases worn : l.isExhausted with
  | true =>
    rw [use_of_exhausted worn]
    exact .failed (by cases u <;> simp [Use.sealed, worn])
  | false =>
    cases u with
    | encrypt plaintext =>
      have sealed : (Use.encrypt plaintext).sealed l = [l.sealing plaintext] := by
        simp [Use.sealed, worn]
      have went : l.use S (.encrypt plaintext) = (.ok (S.encrypt l.key l.nonce plaintext), l.advance) := by
        simp [use, encrypt, worn]
      rw [went]
      exact .went worn (.inr ⟨plaintext, sealed⟩)
    | decrypt ciphertext =>
      cases opened : S.decrypt l.key l.nonce ciphertext with
      | none =>
        have failed : l.use S (.decrypt ciphertext) = (.error .decryptionFailed, l) := by
          simp [use, decrypt, worn, opened]
        rw [failed]
        exact .failed rfl
      | some plaintext =>
        have went : l.use S (.decrypt ciphertext) = (.ok plaintext, l.advance) := by
          simp [use, decrypt, worn, opened]
        rw [went]
        exact .went worn (.inl rfl)

@[simp] theorem run_cons (u : Use) (us : List Use) (l : Lane) :
    run S (u :: us) l =
      ((l.use S u).1 :: (run S us (l.use S u).2).1, (run S us (l.use S u).2).2) := rfl

theorem run_append (us vs : List Use) (l : Lane) :
    run S (us ++ vs) l =
      ((run S us l).1 ++ (run S vs (run S us l).2).1, (run S vs (run S us l).2).2) := by
  induction us generalizing l with
  | nil => rfl
  | cons u us ih => simp only [List.cons_append, run_cons, ih]

theorem counted_run (us : List Use) (l : Lane) :
    (results (run S us l).1).length ≤ l.left ∧
      (run S us l).2 = advance^[(results (run S us l).1).length] l := by
  induction us generalizing l with
  | nil => exact ⟨Nat.zero_le _, rfl⟩
  | cons u us ih =>
    have goes := goes_use (S := S) u l
    rw [run_cons]
    generalize l.use S u = after at goes
    cases goes with
    | failed => exact ih l
    | @went result fresh =>
      obtain ⟨enough, counted⟩ := ih l.advance
      have one : results (.ok result :: (run S us l.advance).1) =
          result :: results (run S us l.advance).1 := rfl
      simp only [one, List.length_cons, left_advance fresh]
      exact ⟨Nat.succ_le_succ enough, counted⟩

theorem place_of_mem_sealings {us : List Use} {v : Sealing} (h : v ∈ sealings S us l) :
    ∃ n < l.left, v.key = l.key ∧ v.nonce = (advance^[n] l).nonce := by
  induction us generalizing l with
  | nil => cases h
  | cons u us ih =>
    have goes := goes_use (S := S) u l
    rw [sealings] at h
    generalize l.use S u = after at goes h
    cases goes with
    | failed nothing => exact ih (by rwa [nothing] at h)
    | went fresh sealed =>
      have more := left_advance fresh
      rcases List.mem_append.1 h with h | h
      · obtain none | ⟨plaintext, one⟩ := sealed
        · rw [none] at h
          cases h
        · rw [one] at h
          obtain rfl := List.mem_singleton.1 h
          exact ⟨0, by omega, rfl, rfl⟩
      · obtain ⟨n, below, key, nonce⟩ := ih (l := l.advance) h
        exact ⟨n + 1, by omega, key, nonce⟩

theorem nodup_sealings (us : List Use) (l : Lane) : ((sealings S us l).map Sealing.nonce).Nodup := by
  induction us generalizing l with
  | nil => exact List.nodup_nil
  | cons u us ih =>
    have goes := goes_use (S := S) u l
    rw [sealings]
    generalize l.use S u = after at goes
    cases goes with
    | failed nothing =>
      rw [nothing]
      exact ih l
    | went fresh sealed =>
      obtain none | ⟨plaintext, one⟩ := sealed
      · rw [none]
        exact ih l.advance
      · rw [one, List.singleton_append, List.map_cons, List.nodup_cons]
        refine ⟨fun repeated => ?_, ih l.advance⟩
        obtain ⟨v, hv, same⟩ := List.mem_map.1 repeated
        obtain ⟨n, below, key, nonce⟩ := place_of_mem_sealings (l := l.advance) hv
        -- the number of the first one is behind
        have more := left_advance fresh
        have first : advance^[n + 1] l = advance^[0] l :=
          nonce_inj (fields_iterate l (n + 1)).1 (nonce.symm.trans same)
        have := iterate_inj (by omega) (by omega) first
        omega

/-! ### The end that encrypts -/

variable {ps : List Bytes}

/-- One plaintext is sealed for each counter value that is left. -/
theorem sealings_encrypt (ps : List Bytes) (l : Lane) : sealings S (ps.map .encrypt) l =
    (ps.take l.left).mapIdx fun i plaintext => (advance^[i] l).sealing plaintext := by
  induction ps generalizing l with
  | nil => simp [sealings]
  | cons p ps ih =>
    cases worn : l.isExhausted with
    | true =>
      have none_left := isExhausted_iff.1 worn
      rw [List.map_cons, sealings, use_of_exhausted worn, ih, none_left]
      simp [Use.sealed, worn]
    | false =>
      have next : (l.use S (.encrypt p)).2 = l.advance := by simp [use, encrypt, worn]
      rw [List.map_cons, sealings, next, ih, left_advance worn, List.take_succ_cons, List.mapIdx_cons]
      simp [Use.sealed, worn]

theorem length_sealings (ps : List Bytes) (l : Lane) :
    (sealings S (ps.map .encrypt) l).length = min ps.length l.left := by
  rw [sealings_encrypt, List.length_mapIdx, List.length_take, min_comm]

theorem sealing_of_getElem? {i : Nat} {u : Sealing}
    (h : (sealings S (ps.map .encrypt) l)[i]? = some u) :
    ∃ p, ps[i]? = some p ∧ (advance^[i] l).sealing p = u := by
  rw [sealings_encrypt, List.getElem?_mapIdx, Option.map_eq_some_iff] at h
  obtain ⟨p, taken, rfl⟩ := h
  rw [List.getElem?_take] at taken
  split at taken
  · exact ⟨p, taken, rfl⟩
  · cases taken

theorem run_encrypt (ps : List Bytes) (l : Lane) :
    run S (ps.map .encrypt) l =
      ((sealings S (ps.map .encrypt) l).map (fun u => .ok (u.ciphertext S)) ++
        List.replicate (ps.length - l.left) (.error .counterExhaustion),
        advance^[min ps.length l.left] l) := by
  induction ps generalizing l with
  | nil => simp [run, sealings]
  | cons p ps ih =>
    rw [List.map_cons, run_cons, sealings]
    cases worn : l.isExhausted with
    | true =>
      have none_left := isExhausted_iff.1 worn
      have nothing : sealings S (ps.map .encrypt) l = [] := by
        rw [sealings_encrypt, none_left, List.take_zero, List.mapIdx_nil]
      rw [use_of_exhausted worn, ih, nothing, none_left]
      simp [Use.sealed, worn, List.replicate_succ]
    | false =>
      have went : l.use S (.encrypt p) = (.ok (S.encrypt l.key l.nonce p), l.advance) := by
        simp [use, encrypt, worn]
      have more : min (p :: ps).length l.left = min ps.length l.advance.left + 1 := by
        rw [left_advance worn, List.length_cons]
        omega
      have fewer : (p :: ps).length - l.left = ps.length - l.advance.left := by
        rw [left_advance worn, List.length_cons]
        omega
      rw [went, ih, more, fewer, Function.iterate_succ_apply]
      simp [Use.sealed, worn, Sealing.ciphertext, sealing]

/-! ### The end that decrypts -/

/-- What was sealed under the next counter value opens. -/
theorem decrypt_due {i : Nat} {u : Sealing} (due : (sealings S (ps.map .encrypt) l)[i]? = some u) :
    (advance^[i] l).decrypt S (u.ciphertext S) = (.ok u.plaintext, advance^[i + 1] l) := by
  have below : i < l.left := by
    obtain ⟨h, -⟩ := List.getElem?_eq_some_iff.1 due
    rw [length_sealings] at h
    omega
  have fresh : (advance^[i] l).isExhausted = false := by
    have some_left := left_iterate below.le
    cases worn : (advance^[i] l).isExhausted with
    | false => rfl
    | true => have := isExhausted_iff.1 worn; omega
  obtain ⟨p, -, rfl⟩ := sealing_of_getElem? due
  simp only [decrypt, fresh, Sealing.ciphertext, sealing, S.decrypt_encrypt, Bool.false_eq_true,
    if_false]
  rw [Function.iterate_succ_apply']

/-- Nothing else opens, provided that everything else was sealed on other lanes or under other counter
values. -/
theorem decrypt_other {i : Nat} {others : List (Lane × Bytes)} {c : Bytes}
    (reached : i ≤ min ps.length l.left) (foreign : ∀ o ∈ others, o.1 ≠ advance^[i] l)
    (authentic : Authentic S (sealings S (ps.map .encrypt) l ++ others.map fun o => o.1.sealing o.2)
      (advance^[i] l) c)
    (other : ((sealings S (ps.map .encrypt) l).map (Sealing.ciphertext S))[i]? ≠ some c) :
    (advance^[i] l).decrypt S c = (.error (if (advance^[i] l).isExhausted then .counterExhaustion
      else .decryptionFailed), advance^[i] l) := by
  cases worn : (advance^[i] l).isExhausted with
  | true => simp [decrypt, worn]
  | false =>
    have closed : S.decrypt (advance^[i] l).key (advance^[i] l).nonce c = none := by
      by_contra opens
      obtain ⟨u, sealed, key, nonce, rfl⟩ := authentic (Option.isSome_iff_ne_none.2 opens)
      -- key and nonce tell lane and number: an own sealing would be the one that is due
      rcases List.mem_append.1 sealed with own | others
      · obtain ⟨j, at_j⟩ := List.mem_iff_getElem?.1 own
        obtain ⟨below, -⟩ := List.getElem?_eq_some_iff.1 at_j
        rw [length_sealings] at below
        have same : advance^[j] l = advance^[i] l := by
          obtain ⟨p, -, rfl⟩ := sealing_of_getElem? at_j
          exact nonce_inj key nonce
        obtain rfl := iterate_inj (by omega) (by omega) same
        exact other (by rw [List.getElem?_map, at_j]; rfl)
      · obtain ⟨o, ho, rfl⟩ := List.mem_map.1 others
        exact foreign o ho (nonce_inj key nonce)
    simp [decrypt, worn, closed]

/-- What was sealed opens in order. -/
theorem opens_in_order {i : Nat} (sealed : i ≤ (sealings S (ps.map .encrypt) l).length) :
    run S (((sealings S (ps.map .encrypt) l).take i).map fun u => .decrypt (u.ciphertext S)) l =
      ((ps.take i).map .ok, advance^[i] l) := by
  induction i with
  | zero => rfl
  | succ i ih =>
    obtain ⟨u, due⟩ : ∃ u, (sealings S (ps.map .encrypt) l)[i]? = some u :=
      ⟨_, List.getElem?_eq_getElem sealed⟩
    obtain ⟨p, given, rfl⟩ := sealing_of_getElem? due
    have opened : run S [.decrypt (((advance^[i] l).sealing p).ciphertext S)] (advance^[i] l) =
        ([.ok p], advance^[i + 1] l) := by
      rw [run_cons, use, decrypt_due due]
      rfl
    rw [List.take_add_one, due, List.take_add_one, given, Option.toList_some, Option.toList_some,
      List.map_append, List.map_append, List.map_singleton, List.map_singleton, run_append,
      ih (Nat.le_of_succ_le sealed), opened]

/-- After as many plaintexts as ciphertexts both ends have the same lane. -/
theorem ends_alike {i : Nat} (sealed : i ≤ min ps.length l.left) :
    (run S ((ps.take i).map .encrypt) l).2 = advance^[i] l ∧
      run S ((((sealings S (ps.map .encrypt) l).map (Sealing.ciphertext S)).take i).map .decrypt) l =
        ((ps.take i).map .ok, advance^[i] l) := by
  have taken : min (min i ps.length) l.left = i := by omega
  refine ⟨by rw [run_encrypt, List.length_take, taken], ?_⟩
  rw [← opens_in_order (S := S) (length_sealings (S := S) ps l ▸ sealed), ← List.map_take,
    List.map_map]
  rfl

section

variable {others : List (Lane × Bytes)} {offers : List Bytes}
  (foreign : ∀ o ∈ others, ∀ i ≤ min ps.length l.left, o.1 ≠ advance^[i] l)
  (authentic : ∀ c ∈ offers, ∀ i ≤ min ps.length l.left,
    Authentic S (sealings S (ps.map .encrypt) l ++ others.map fun o => o.1.sealing o.2)
      (advance^[i] l) c)

include foreign authentic

/-- Whatever it is offered, the receiving end opens a prefix of what was sealed. -/
theorem heard_run {i : Nat} (reached : i ≤ min ps.length l.left) :
    ∃ n, i + n ≤ min ps.length l.left ∧
      results (run S (offers.map .decrypt) (advance^[i] l)).1 = (ps.drop i).take n ∧
      (run S (offers.map .decrypt) (advance^[i] l)).2 = advance^[i + n] l := by
  induction offers generalizing i with
  | nil => exact ⟨0, reached, rfl, rfl⟩
  | cons c offers ih =>
    obtain ⟨first, rest⟩ := List.forall_mem_cons.1 authentic
    by_cases due : ((sealings S (ps.map .encrypt) l).map (Sealing.ciphertext S))[i]? = some c
    · rw [List.getElem?_map, Option.map_eq_some_iff] at due
      obtain ⟨u, at_i, rfl⟩ := due
      obtain ⟨p, given, rfl⟩ := sealing_of_getElem? at_i
      obtain ⟨here, -⟩ := List.getElem?_eq_some_iff.1 at_i
      obtain ⟨n, bound, heard, after⟩ := ih rest (i := i + 1) (by rwa [length_sealings] at here)
      refine ⟨n + 1, by omega, ?_, ?_⟩
      · have next : ps.drop i = p :: ps.drop (i + 1) := by
          obtain ⟨more, rfl⟩ := List.getElem?_eq_some_iff.1 given
          exact List.drop_eq_getElem_cons more
        rw [List.map_cons, run_cons, use, decrypt_due at_i, next, List.take_succ_cons, ← heard]
        rfl
      · rw [List.map_cons, run_cons, use, decrypt_due at_i, after, Nat.add_assoc, Nat.add_comm 1]
    · have refused := decrypt_other reached (fun o ho => foreign o ho i reached) (first i reached) due
      obtain ⟨n, bound, heard, after⟩ := ih rest reached
      refine ⟨n, bound, ?_, ?_⟩
      · rw [List.map_cons, run_cons, use, refused]
        exact heard
      · rw [List.map_cons, run_cons, use, refused]
        exact after

/-- At any point the receiving end refuses everything but the next ciphertext, without a change, and
then opens that one. -/
theorem opens_only_due {before after : List Bytes} {c : Bytes} (split : offers = before ++ c :: after) :
    let sealed := (sealings S (ps.map .encrypt) l).map (Sealing.ciphertext S)
    let heard := results (run S (before.map .decrypt) l).1
    let receiver := (run S (before.map .decrypt) l).2
    heard <+: ps ∧ receiver = advance^[heard.length] l ∧
      (sealed[heard.length]? ≠ some c → receiver.decrypt S c =
        (.error (if receiver.isExhausted then .counterExhaustion else .decryptionFailed), receiver)) ∧
      ∀ due, sealed[heard.length]? = some due → ∃ p, ps[heard.length]? = some p ∧
        receiver.decrypt S due = (.ok p, receiver.advance) := by
  intro sealed heard receiver
  have offered : ∀ o ∈ before, o ∈ offers := fun o ho => by rw [split]; simp [ho]
  have authentic' := fun o ho => authentic o (offered o ho)
  obtain ⟨n, bound, came, here⟩ := heard_run foreign authentic' (Nat.zero_le _)
  have told : heard = ps.take n := came
  have count : heard.length = n := by
    rw [told, List.length_take]
    omega
  have place : receiver = advance^[heard.length] l := by
    rw [count, ← Nat.zero_add n]
    exact here
  have reached : heard.length ≤ min ps.length l.left := by omega
  refine ⟨told ▸ List.take_prefix n ps, place, fun other => ?_, fun due at_place => ?_⟩
  · rw [place]
    exact decrypt_other reached (fun o ho => foreign o ho _ reached)
      (authentic c (by simp [split]) _ reached) other
  · simp only [sealed, List.getElem?_map, Option.map_eq_some_iff] at at_place
    obtain ⟨u, at_place, rfl⟩ := at_place
    obtain ⟨p, given, rfl⟩ := sealing_of_getElem? at_place
    refine ⟨p, given, ?_⟩
    rw [place, decrypt_due at_place, Function.iterate_succ_apply']
    rfl

end

/-- Two ends that start with the same lane stay in step: what one seals the other opens in order, and
both counters agree. Whatever else is offered in between is refused and changes nothing. No counter
value is used twice, and the last one is never used. `others` are the ciphertexts sealed elsewhere with
the same key, for another path or direction or under another counter value. -/
theorem in_step (S : Suite) (l : Lane) (ps : List Bytes) (others : List (Lane × Bytes))
    (offers : List Bytes)
    (foreign : ∀ o ∈ others, ∀ i ≤ min ps.length l.left, o.1 ≠ advance^[i] l)
    (authentic : ∀ c ∈ offers, ∀ i ≤ min ps.length l.left,
      Authentic S (sealings S (ps.map .encrypt) l ++ others.map fun o => o.1.sealing o.2)
        (advance^[i] l) c) :
    let sealed := (sealings S (ps.map .encrypt) l).map (Sealing.ciphertext S)
    (sealed.length = min ps.length l.left ∧
      (run S (ps.map .encrypt) l).1 = sealed.map .ok ++
        List.replicate (ps.length - l.left) (.error .counterExhaustion)) ∧
    (∀ i ≤ sealed.length,
      let sender := (run S ((ps.take i).map .encrypt) l).2
      let (answers, receiver) := run S ((sealed.take i).map .decrypt) l
      answers = (ps.take i).map .ok ∧ receiver = sender ∧
        receiver.counter.toNat = l.counter.toNat + i) ∧
    (∀ before c after, offers = before ++ c :: after →
      let heard := results (run S (before.map .decrypt) l).1
      let receiver := (run S (before.map .decrypt) l).2
      heard <+: ps ∧ receiver = advance^[heard.length] l ∧
        (sealed[heard.length]? ≠ some c → receiver.decrypt S c =
          (.error (if receiver.isExhausted then .counterExhaustion else .decryptionFailed),
            receiver)) ∧
        ∀ due, sealed[heard.length]? = some due → ∃ p, ps[heard.length]? = some p ∧
          receiver.decrypt S due = (.ok p, receiver.advance)) ∧
    ∀ us,
      let (answers, lane) := run S us l
      lane.counter.toNat = l.counter.toNat + (results answers).length ∧
        (lane.counter.toNat = 2 ^ 64 - 1 → ∀ u, lane.use S u = (.error .counterExhaustion, lane)) ∧
        ((sealings S us l).map Sealing.nonce).Nodup := by
  intro sealed
  have size : sealed.length = min ps.length l.left := by
    rw [List.length_map, length_sealings]
  refine ⟨⟨size, ?_⟩, fun i reached => ?_,
    fun before c after split => opens_only_due foreign authentic split, fun us => ?_⟩
  · rw [run_encrypt, List.map_map]
    rfl
  · have bound : i ≤ min ps.length l.left := size ▸ reached
    obtain ⟨sent, opened⟩ := ends_alike (S := S) bound
    simp only [sealed, opened, sent]
    exact ⟨trivial, trivial, counter_iterate (counter_add_lt (by omega))⟩
  · obtain ⟨enough, counted⟩ := counted_run (S := S) us l
    refine ⟨?_, fun last u => use_of_exhausted (isExhausted_iff.2 ?_) u, nodup_sealings us l⟩
    · rw [counted, counter_iterate (counter_add_lt enough)]
    · rw [left, last, Nat.sub_self]

/-- Two counter values are left for three plaintexts. The two ciphertexts arrive among one of another
path, one of the other direction, a few arbitrary bytes and copies of themselves. -/
theorem in_step_plain :
    let l : Lane := ⟨Octets.zero 32, 3, .toResponder, 0xfffffffffffffffd⟩
    let one := (l.sealing [1]).ciphertext Suite.plain
    let two := (l.advance.sealing [2]).ciphertext Suite.plain
    let path := ({ l with pid := 4 }.sealing [1]).ciphertext Suite.plain
    let back := ({ l with direction := .toInitiator }.sealing [1]).ciphertext Suite.plain
    (run Suite.plain ([[1], [2], [3]].map .encrypt) l).1 =
      [.ok one, .ok two, .error .counterExhaustion] ∧
    let receiver := (run Suite.plain ([two, path, back, one].map .decrypt) l).2
    receiver = l.advance ∧ receiver.decrypt Suite.plain one = (.error .decryptionFailed, receiver) ∧
      receiver.decrypt Suite.plain two = (.ok [2], receiver.advance) := by
  intro l one two path back
  obtain ⟨⟨-, sent⟩, -, offered, -⟩ := in_step Suite.plain l [[1], [2], [3]]
    [({ l with pid := 4 }, [1]), ({ l with direction := .toInitiator }, [1])]
    [two, path, back, one, one, [9], two, two] (by decide +kernel)
    (by simp only [Authentic]; decide +kernel)
  obtain ⟨-, place, refused, opened⟩ := offered [two, path, back, one] one [[9], two, two] rfl
  have heard : results (run Suite.plain ([two, path, back, one].map .decrypt) l).1 = [[1]] := by
    decide +kernel
  simp only [heard, List.length_singleton] at place refused opened
  refine ⟨sent, place, ?_, ?_⟩
  · have other : [one, two][1]? ≠ some one := by decide +kernel
    have fresh : (run Suite.plain ([two, path, back, one].map .decrypt) l).2.isExhausted = false := by
      decide +kernel
    simpa only [fresh, Bool.false_eq_true, if_false] using refused other
  · obtain ⟨p, given, opened⟩ := opened two rfl
    obtain rfl : p = [2] := (Option.some.inj given).symm
    exact opened

end Lane

end PathRace
