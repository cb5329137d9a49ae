import Mathlib.Data.Set.Card
import Mathlib.Order.Interval.Finset.Nat
import ShaderGraph.Proofs.NamePool

/-!
# Fresh names along a history

A pool is asked for names made from a stem and for names as they are. The
search for a number goes up from the last one of the stem until a name is free,
and comes to an end since only finitely many are taken. The numbers that it
leaves behind belong to names of the pool, so the last number of a stem never
exceeds the number of its names.
-/

namespace ShaderGraph

/-- What can be asked of a pool. -/
inductive NameRequest where
  | next (stem : String)
  | reserve (name : String)

namespace NamePool

variable {p q : NamePool} {stem stem' name : String} {c n : Nat}

/-- The name given for a request, and the pool after it; a request that is refused leaves the
pool as it is. -/
def answer (p : NamePool) : NameRequest → Except BuildError String × NamePool
  | .next stem => (.ok (p.next stem).1, (p.next stem).2)
  | .reserve name =>
    match p.reserve name with
    | .ok q => (.ok name, q)
    | .error e => (.error e, p)

/-- The answers to some requests, one after the other. -/
def answers : NamePool → List NameRequest → List (Except BuildError String)
  | _, [] => []
  | p, request :: rest => (p.answer request).1 :: (p.answer request).2.answers rest

/-- The pool after some requests. -/
def after (p : NamePool) (requests : List NameRequest) : NamePool :=
  requests.foldl (fun p request ↦ (p.answer request).2) p

/-- The search for a number from the last one on: the next number is the one if its name is free,
and is passed over if it is not. There is no bound to it. -/
inductive Searches (p : NamePool) (stem : String) : Nat → Nat → Prop
  | found {c : Nat} (hfree : p.contains (numbered stem (c + 1)) = false) :
      Searches p stem c (c + 1)
  | passed {c n : Nat} (htaken : p.contains (numbered stem (c + 1)) = true)
      (hrest : Searches p stem (c + 1) n) : Searches p stem c n

/-- The numbers above a number whose names are free. -/
def freeAbove (p : NamePool) (stem : String) (c : Nat) : Set Nat :=
  {n | c < n ∧ p.contains (numbered stem n) = false}

/-- The search ends exactly at the least number that is free. -/
theorem searches_iff_isLeast : p.Searches stem c n ↔ IsLeast (p.freeAbove stem c) n := by
  constructor
  · intro h
    induction h with
    | found hfree => exact ⟨⟨Nat.lt_succ_self _, hfree⟩, fun m hm ↦ hm.1⟩
    | @passed c n htaken _ ih =>
      obtain ⟨⟨hlt, hfree⟩, hleast⟩ := ih
      refine ⟨⟨Nat.lt_of_succ_lt hlt, hfree⟩, fun m ⟨hm, hmfree⟩ ↦ ?_⟩
      rcases Nat.eq_or_lt_of_le hm with rfl | hm
      · rw [htaken] at hmfree
        cases hmfree
      · exact hleast ⟨hm, hmfree⟩
  · rintro ⟨⟨hlt, hfree⟩, hleast⟩
    obtain ⟨d, rfl⟩ := Nat.exists_eq_add_of_lt hlt
    induction d generalizing c with
    | zero => exact .found hfree
    | succ d ih =>
      have htaken : p.contains (numbered stem (c + 1)) = true := by
        by_contra h
        have := hleast ⟨Nat.lt_succ_self c, Bool.not_eq_true _ ▸ h⟩
        omega
      have hshift : c + (d + 1) + 1 = c + 1 + d + 1 := by omega
      rw [hshift] at hfree hleast ⊢
      have hleast' : c + 1 + d + 1 ∈ lowerBounds (p.freeAbove stem (c + 1)) := by
        rintro m ⟨hm, hmfree⟩
        exact hleast ⟨Nat.lt_of_succ_lt hm, hmfree⟩
      have hlt' : c + 1 < c + 1 + d + 1 := by omega
      exact .passed htaken (ih hleast' hlt' hfree)

theorem contains_eq_false : p.contains name = false ↔ name ∉ p.taken := by
  rw [← contains_iff, Bool.not_eq_true]

theorem isLeast_nextNumber (p : NamePool) (stem : String) :
    IsLeast (p.freeAbove stem (p.counter stem)) (p.nextNumber stem) := by
  refine ⟨⟨p.counter_lt_nextNumber stem, ?_⟩, ?_⟩
  · exact contains_eq_false.mpr (p.next_notMem stem)
  · rintro m ⟨hm, hfree⟩
    by_contra hlt
    have htaken := contains_of_lt_firstFree (Nat.succ_le_of_lt hm) (Nat.not_le.mp hlt)
    rw [hfree] at htaken
    cases htaken

theorem lookup_filter_ne {l : List (String × Nat)} (h : stem' ≠ stem) :
    (l.filter (·.1 != stem)).lookup stem' = l.lookup stem' := by
  induction l with
  | nil => rfl
  | cons entry rest ih =>
    obtain ⟨key, number⟩ := entry
    by_cases hkey : key = stem
    · subst hkey
      have hne : (stem' == key) = false := beq_eq_false_iff_ne.mpr h
      simp [List.lookup_cons, hne, ih]
    · simp [List.lookup_cons, hkey, ih]

@[simp] theorem counter_next_self (p : NamePool) (stem : String) :
    (p.next stem).2.counter stem = p.nextNumber stem := by
  simp [next, counter]

theorem counter_next_of_ne (h : stem' ≠ stem) :
    (p.next stem).2.counter stem' = p.counter stem' := by
  have hne : (stem' == stem) = false := beq_eq_false_iff_ne.mpr h
  simp [next, counter, List.lookup_cons, hne, lookup_filter_ne h]

theorem reserve_eq_error {e : BuildError} :
    p.reserve name = .error e ↔ name ∈ p.taken ∧ e = .nameTaken name := by
  unfold reserve
  rw [← contains_iff]
  split
  · next htaken => exact ⟨fun h ↦ ⟨htaken, (Except.error.inj h).symm⟩, fun h ↦ by rw [h.2]⟩
  · next hfree => exact ⟨nofun, fun h ↦ (hfree h.1).elim⟩

/-- A request either gives a name, or is for a name that is taken and changes nothing. -/
theorem answer_cases (p : NamePool) (request : NameRequest) :
    (∃ name q, p.answer request = (.ok name, q) ∧ p.Gives name q) ∨
      ∃ name, p.answer request = (.error (.nameTaken name), p) ∧ name ∈ p.taken := by
  cases request with
  | next stem => exact .inl ⟨_, _, rfl, .inl ⟨stem, rfl⟩⟩
  | reserve name =>
    cases h : p.reserve name with
    | ok q => exact .inl ⟨name, q, by simp [answer, h], .inr h⟩
    | error e =>
      obtain ⟨htaken, rfl⟩ := reserve_eq_error.mp h
      exact .inr ⟨name, by simp [answer, h], htaken⟩

theorem Gives.size (h : p.Gives name q) : q.size = p.size + 1 := by
  simp [NamePool.size, h.taken]

theorem taken_subset_answer (p : NamePool) (request : NameRequest) :
    p.taken ⊆ (p.answer request).2.taken := by
  rcases p.answer_cases request with ⟨name, q, h, hgives⟩ | ⟨name, h, -⟩ <;> rw [h]
  · rw [hgives.taken]
    exact List.subset_cons_self name p.taken
  · exact List.Subset.refl _

@[simp] theorem counter_answer_reserve (p : NamePool) (name stem : String) :
    (p.answer (.reserve name)).2.counter stem = p.counter stem := by
  cases h : p.reserve name with
  | ok q =>
    obtain ⟨-, rfl⟩ := reserve_eq_ok.mp h
    simp [answer, h, counter]
  | error e => simp [answer, h]

theorem counter_le_answer (p : NamePool) (request : NameRequest) (stem : String) :
    p.counter stem ≤ (p.answer request).2.counter stem := by
  cases request with
  | next stem' =>
    change _ ≤ (p.next stem').2.counter stem
    by_cases h : stem = stem'
    · subst h
      rw [counter_next_self]
      exact Nat.le_of_lt (p.counter_lt_nextNumber stem)
    · rw [counter_next_of_ne h]
  | reserve name => rw [counter_answer_reserve]

/-! ## What holds along a history -/

/-- All names are different, and all numbers up to the last one of a stem belong to names of the
pool. -/
structure Counted (p : NamePool) : Prop where
  nodup : p.taken.Nodup
  numbered_mem : ∀ stem i, 0 < i → i ≤ p.counter stem → numbered stem i ∈ p.taken

theorem counted_empty : Counted empty where
  nodup := List.nodup_nil
  numbered_mem stem i hi hle := by
    have hzero : i ≤ 0 := hle
    omega

theorem Counted.answer (h : Counted p) (request : NameRequest) : Counted (p.answer request).2 where
  nodup := by
    rcases p.answer_cases request with ⟨name, q, heq, hgives⟩ | ⟨name, heq, -⟩ <;> rw [heq]
    · exact hgives.nodup h.nodup
    · exact h.nodup
  numbered_mem stem i hi hle := by
    by_cases hold : i ≤ p.counter stem
    · exact p.taken_subset_answer request (h.numbered_mem stem i hi hold)
    -- a number above the last one was made now: it is the one found, or was passed over
    cases request with
    | next stem' =>
      change i ≤ (p.next stem').2.counter stem at hle
      change _ ∈ numbered stem' (p.nextNumber stem') :: p.taken
      by_cases hstem : stem = stem'
      · subst hstem
        rw [counter_next_self] at hle
        rcases Nat.eq_or_lt_of_le hle with rfl | hlt
        · exact List.mem_cons_self
        · have htaken := contains_of_lt_firstFree (by omega) hlt
          exact List.mem_cons_of_mem _ (contains_iff.mp htaken)
      · rw [counter_next_of_ne hstem] at hle
        exact absurd hle hold
    | reserve name =>
      rw [counter_answer_reserve] at hle
      exact absurd hle hold

theorem Counted.after (h : Counted p) (requests : List NameRequest) :
    Counted (p.after requests) := by
  induction requests generalizing p with
  | nil => exact h
  | cons request rest ih => exact ih (h.answer request)

theorem taken_subset_after (p : NamePool) (requests : List NameRequest) :
    p.taken ⊆ (p.after requests).taken := by
  induction requests generalizing p with
  | nil => exact List.Subset.refl _
  | cons request rest ih => exact List.Subset.trans (p.taken_subset_answer request) (ih _)

theorem counter_le_after (p : NamePool) (requests : List NameRequest) (stem : String) :
    p.counter stem ≤ (p.after requests).counter stem := by
  induction requests generalizing p with
  | nil => exact Nat.le_refl _
  | cons request rest ih => exact Nat.le_trans (p.counter_le_answer request stem) (ih _)

theorem size_after (p : NamePool) (requests : List NameRequest) :
    (p.after requests).size = p.size + (p.answers requests).countP Except.isOk := by
  induction requests generalizing p with
  | nil => rfl
  | cons request rest ih =>
    change ((p.answer request).2.after rest).size = _
    rw [ih, answers, List.countP_cons]
    rcases p.answer_cases request with ⟨name, q, heq, hgives⟩ | ⟨name, heq, -⟩ <;> rw [heq]
    · simp only [hgives.size, Except.isOk, Except.toBool, if_true]
      omega
    · simp [Except.isOk, Except.toBool]

/-- The names of a stem that a pool has. -/
def ofStem (p : NamePool) (stem : String) : Set String :=
  {name | name ∈ p.taken ∧ ∃ n, name = numbered stem n}

theorem Counted.counter_le (h : Counted p) (stem : String) :
    p.counter stem ≤ (p.ofStem stem).ncard := by
  have hsubset : numbered stem '' Set.Icc 1 (p.counter stem) ⊆ p.ofStem stem := by
    rintro _ ⟨i, ⟨hlow, hhigh⟩, rfl⟩
    exact ⟨h.numbered_mem stem i hlow hhigh, i, rfl⟩
  have hfinite : (p.ofStem stem).Finite :=
    p.taken.finite_toSet.subset fun name hname ↦ hname.1
  calc p.counter stem = (Set.Icc 1 (p.counter stem)).ncard := by
        simp [Set.ncard_eq_toFinset_card']
    _ = (numbered stem '' Set.Icc 1 (p.counter stem)).ncard :=
      (Set.ncard_image_of_injective _ (numbered_injective stem)).symm
    _ ≤ (p.ofStem stem).ncard := Set.ncard_le_ncard hsubset hfinite

/-- How a pool makes the next name of a stem, whatever is asked of it afterwards. -/
structure Supplies (p : NamePool) (stem : String) : Prop where
  name_eq : (p.next stem).1 = numbered stem (p.nextNumber stem)
  searches : p.Searches stem (p.counter stem) (p.nextNumber stem)
  isLeast : IsLeast (p.freeAbove stem (p.counter stem)) (p.nextNumber stem)
  free : p.contains (p.next stem).1 = false
  contains_after : ∀ name, (p.next stem).2.contains name = true ↔
    name = (p.next stem).1 ∨ p.contains name = true
  /-- So numbers fit into as many bits as it takes to count the names of the stem. -/
  number_le : p.nextNumber stem ≤ ((p.next stem).2.ofStem stem).ncard
  increasing : ∀ later, p.nextNumber stem < ((p.next stem).2.after later).nextNumber stem
  name_ne : ∀ later stem', (((p.next stem).2.after later).next stem').1 ≠ (p.next stem).1

/-- A pool gives a name as it is exactly if it does not have it. -/
structure Reserves (p : NamePool) (name : String) : Prop where
  ok_iff : (∃ q, p.reserve name = .ok q) ↔ p.contains name = false
  contains_after : ∀ q, p.reserve name = .ok q → ∀ other, q.contains other = true ↔
    other = name ∨ p.contains other = true
  refused : p.contains name = true → p.reserve name = .error (.nameTaken name)

theorem Counted.supplies (h : Counted p) (stem : String) : p.Supplies stem where
  name_eq := rfl
  searches := searches_iff_isLeast.mpr (p.isLeast_nextNumber stem)
  isLeast := p.isLeast_nextNumber stem
  free := contains_eq_false.mpr (p.next_notMem stem)
  contains_after name := by simp
  number_le := by
    have hcounter := (h.answer (.next stem)).counter_le stem
    change (p.next stem).2.counter stem ≤ _ at hcounter
    rwa [counter_next_self] at hcounter
  increasing later := by
    have hcounter := (p.next stem).2.counter_le_after later stem
    rw [counter_next_self] at hcounter
    exact Nat.lt_of_le_of_lt hcounter (counter_lt_nextNumber _ stem)
  name_ne later stem' heq := by
    have hmem : (p.next stem).1 ∈ (p.next stem).2.taken := List.mem_cons_self
    have hlater := (p.next stem).2.taken_subset_after later hmem
    rw [← heq] at hlater
    exact next_notMem _ stem' hlater

theorem reserves (p : NamePool) (name : String) : p.Reserves name where
  ok_iff := by
    rw [contains_eq_false]
    exact ⟨fun ⟨q, h⟩ ↦ (reserve_eq_ok.mp h).1, fun h ↦ ⟨_, reserve_eq_ok.mpr ⟨h, rfl⟩⟩⟩
  contains_after q h other := by
    obtain ⟨-, rfl⟩ := reserve_eq_ok.mp h
    simp [contains]
  refused h := reserve_eq_error.mpr ⟨contains_iff.mp h, rfl⟩

/-- After every history of requests, the next name of a stem is the first one above the last
number of the stem that is free, found by a search that ends. It is new, comes to the names that
the pool has, and is given to nobody else afterwards; numbers of a stem increase. Names as they
are are given exactly if they are free. The pool has as many names as requests were granted. -/
theorem names_fresh (history : List NameRequest) :
    (∀ stem, (empty.after history).Supplies stem) ∧
    (∀ name, (empty.after history).Reserves name) ∧
    (empty.after history).size = (empty.answers history).countP Except.isOk := by
  refine ⟨(counted_empty.after history).supplies, reserves _, ?_⟩
  rw [size_after]
  exact Nat.zero_add _

example : (empty.after [.reserve "f1_1", .next "f1", .next "f1_1", .reserve "f1_2"]).taken =
    ["f1_1_1", "f1_2", "f1_1"] := by
  decide +kernel

end NamePool

end ShaderGraph
