import ShaderGraph.Region.Effects

/-!
# Variables of an expression

The set of variables that an expression reads is compared with the plain list
of those it mentions. Sets go by numbers, so the comparison needs a stock of
variables in which numbers tell them apart.
-/

namespace ShaderGraph

/-- In a stock of variables, numbers tell them apart. -/
def Distinct (V : List Variable) : Prop := ∀ v ∈ V, ∀ w ∈ V, v.id = w.id → v = w

theorem Distinct.any_id_iff {V l : List Variable} (hV : Distinct V) (hl : ∀ w ∈ l, w ∈ V)
    {v : Variable} (hv : v ∈ V) : l.any (·.id == v.id) = true ↔ v ∈ l := by
  rw [List.any_eq_true]
  constructor
  · rintro ⟨w, hw, hid⟩
    have h : w = v := hV w (hl w hw) v hv (by simpa using hid)
    exact h ▸ hw
  · intro h
    exact ⟨v, h, by simp⟩

namespace VarSet

instance : Membership Variable VarSet := ⟨fun s v ↦ v ∈ s.toList⟩

/-- In a set of variables from a stock, being there and having one's number there agree. -/
theorem mem_iff_contains {V : List Variable} (hV : Distinct V) {s : VarSet}
    (hs : ∀ w ∈ s, w ∈ V) {v : Variable} (hv : v ∈ V) : v ∈ s ↔ s.contains v = true :=
  (hV.any_id_iff hs hv).symm

theorem not_mem_empty (v : Variable) : v ∉ empty := List.not_mem_nil

theorem eq_or_mem_of_mem_insert {s : VarSet} {v x : Variable} (h : x ∈ s.insert v) :
    x = v ∨ x ∈ s :=
  mem_insertList h

theorem mem_or_mem_of_mem_insertAll {s : VarSet} {vs : List Variable} {x : Variable}
    (h : x ∈ s.insertAll vs) : x ∈ vs ∨ x ∈ s := by
  induction vs generalizing s with
  | nil => exact .inr h
  | cons v rest ih =>
    rcases ih (s := s.insert v) h with h | h
    · exact .inl (List.mem_cons_of_mem v h)
    · rcases eq_or_mem_of_mem_insert h with rfl | h
      · exact .inl List.mem_cons_self
      · exact .inr h

theorem mem_or_mem_of_mem_union {s t : VarSet} {x : Variable} (h : x ∈ s.union t) :
    x ∈ t ∨ x ∈ s :=
  mem_or_mem_of_mem_insertAll h

theorem mem_of_mem_eraseAll {s : VarSet} {vs : List Variable} {x : Variable}
    (h : x ∈ s.eraseAll vs) : x ∈ s :=
  (List.mem_filter.mp h).1

end VarSet

namespace Expr

mutual

/-- The variables that an expression mentions. -/
def vars : Expr → List Variable
  | lit _ => []
  | var v => [v]
  | unary _ a => a.vars
  | binary _ _ a b => a.vars ++ b.vars
  | call _ _ args => varsOfList args
  | swizzle _ source _ => source.vars
  | lookup _ object index => object.vars ++ index.vars

def varsOfList : List Expr → List Variable
  | [] => []
  | e :: rest => e.vars ++ varsOfList rest

end

theorem varsOfList_eq_flatMap (es : List Expr) :
    varsOfList es = es.flatMap vars := by
  induction es with
  | nil => rfl
  | cons e rest ih => simp [varsOfList, ih]

/-- The variables that the indices in an assignment target mention. -/
def indexVariables : Expr → List Variable
  | swizzle _ source _ => source.indexVariables
  | lookup _ object index => object.indexVariables ++ index.vars
  | lit _ | var _ | unary .. | binary .. | call .. => []

mutual

theorem contains_addReads (s : VarSet) (w : Variable) (e : Expr) :
    (e.addReads s).contains w = (e.vars.any (·.id == w.id) || s.contains w) := by
  cases e with
  | lit _ => simp [addReads, vars]
  | var v => simp [addReads, vars]
  | unary _ a => simpa [addReads, vars] using contains_addReads s w a
  | binary _ _ a b =>
    simp [addReads, vars, contains_addReads _ w b, contains_addReads s w a,
      Bool.or_left_comm, Bool.or_assoc]
  | call _ _ args => simpa [addReads, vars] using contains_addReadsOfList s w args
  | swizzle _ source _ => simpa [addReads, vars] using contains_addReads s w source
  | lookup _ object index =>
    simp [addReads, vars, contains_addReads _ w index, contains_addReads s w object,
      Bool.or_left_comm, Bool.or_assoc]

theorem contains_addReadsOfList (s : VarSet) (w : Variable) (es : List Expr) :
    (addReadsOfList s es).contains w =
      ((varsOfList es).any (·.id == w.id) || s.contains w) := by
  cases es with
  | nil => simp [addReadsOfList, varsOfList]
  | cons e rest =>
    simp [addReadsOfList, varsOfList, contains_addReadsOfList _ w rest,
      contains_addReads s w e, Bool.or_left_comm, Bool.or_assoc]

end

mutual

theorem mem_vars_or_mem_of_mem_addReads {s : VarSet} {w : Variable} (e : Expr)
    (h : w ∈ e.addReads s) : w ∈ e.vars ∨ w ∈ s := by
  cases e with
  | lit _ => exact .inr h
  | var v => simpa [vars] using VarSet.eq_or_mem_of_mem_insert h
  | unary _ a => exact mem_vars_or_mem_of_mem_addReads a h
  | binary _ _ a b =>
    simp only [vars, List.mem_append]
    rcases mem_vars_or_mem_of_mem_addReads b h with h | h
    · exact .inl (.inr h)
    · exact (mem_vars_or_mem_of_mem_addReads a h).imp_left .inl
  | call _ _ args => exact mem_varsOfList_or_mem_of_mem_addReadsOfList args h
  | swizzle _ source _ => exact mem_vars_or_mem_of_mem_addReads source h
  | lookup _ object index =>
    simp only [vars, List.mem_append]
    rcases mem_vars_or_mem_of_mem_addReads index h with h | h
    · exact .inl (.inr h)
    · exact (mem_vars_or_mem_of_mem_addReads object h).imp_left .inl

theorem mem_varsOfList_or_mem_of_mem_addReadsOfList {s : VarSet} {w : Variable}
    (es : List Expr) (h : w ∈ addReadsOfList s es) : w ∈ varsOfList es ∨ w ∈ s := by
  cases es with
  | nil => exact .inr h
  | cons e rest =>
    simp only [varsOfList, List.mem_append]
    rcases mem_varsOfList_or_mem_of_mem_addReadsOfList rest h with h | h
    · exact .inl (.inr h)
    · exact (mem_vars_or_mem_of_mem_addReads e h).imp_left .inl

end

@[simp] theorem contains_reads (w : Variable) (e : Expr) :
    e.reads.contains w = e.vars.any (·.id == w.id) := by
  simp [reads, contains_addReads]

theorem mem_vars_of_mem_reads {w : Variable} {e : Expr} (h : w ∈ e.reads) :
    w ∈ e.vars :=
  (mem_vars_or_mem_of_mem_addReads e h).resolve_right (VarSet.not_mem_empty w)

/-- Of variables from a stock, an expression reads those that it mentions. -/
theorem mem_reads_iff {V : List Variable} (hV : Distinct V) {e : Expr}
    (he : ∀ w ∈ e.vars, w ∈ V) {v : Variable} : v ∈ e.reads ↔ v ∈ e.vars := by
  refine ⟨mem_vars_of_mem_reads, ?_⟩
  intro h
  have hs : ∀ w ∈ e.reads, w ∈ V := fun w hw ↦ he w (mem_vars_of_mem_reads hw)
  rw [VarSet.mem_iff_contains hV hs (he v h), contains_reads]
  exact List.any_eq_true.mpr ⟨v, h, by simp⟩

/-! ## Assignment targets -/

theorem targetVariable?_eq_of_root? {e : Expr} {r : Variable} (h : e.root? = some r) :
    e.targetVariable? = some r := by
  fun_induction root? e with
  | case1 v => exact h
  | case2 _ source mask hmask ih => exact ih h
  | case3 _ source mask hmask => cases h
  | case4 _ object index ih => exact ih h
  | _ => cases h

/-- A target mentions the variable that it writes and, in its indices, those that it reads. -/
theorem mem_vars_iff_of_root? {e : Expr} {r : Variable} (h : e.root? = some r)
    {v : Variable} : v ∈ e.vars ↔ v = r ∨ v ∈ e.indexVariables := by
  fun_induction root? e with
  | case1 w =>
    cases h
    simp [vars, indexVariables]
  | case2 _ source mask hmask ih => exact ih h
  | case3 _ source mask hmask => cases h
  | case4 _ object index ih =>
    simp only [vars, indexVariables, List.mem_append, ih h, or_assoc]
  | _ => cases h

theorem contains_addTargetReads {e : Expr} {r : Variable} (h : e.root? = some r)
    (usesOld : Bool) (s : VarSet) (w : Variable) :
    (e.addTargetReads usesOld s).contains w =
      ((usesOld && r.id == w.id) || e.indexVariables.any (·.id == w.id) || s.contains w) := by
  fun_induction root? e generalizing s with
  | case1 v =>
    cases h
    cases usesOld <;> simp [addTargetReads, indexVariables]
  | case2 _ source mask hmask ih => simpa [addTargetReads, indexVariables] using ih h s
  | case3 _ source mask hmask => cases h
  | case4 _ object index ih =>
    simp [addTargetReads, indexVariables, ih h, contains_addReads, Bool.or_assoc]
  | _ => cases h

theorem mem_of_mem_addTargetReads {e : Expr} {r : Variable} (h : e.root? = some r)
    {usesOld : Bool} {s : VarSet} {w : Variable} (hw : w ∈ e.addTargetReads usesOld s) :
    usesOld = true ∧ w = r ∨ w ∈ e.indexVariables ∨ w ∈ s := by
  fun_induction root? e generalizing s with
  | case1 v =>
    cases h
    cases usesOld with
    | false => exact .inr (.inr hw)
    | true =>
      rcases VarSet.eq_or_mem_of_mem_insert hw with hw | hw
      · exact .inl ⟨rfl, hw⟩
      · exact .inr (.inr hw)
  | case2 _ source mask hmask ih => exact ih h hw
  | case3 _ source mask hmask => cases h
  | case4 _ object index ih =>
    simp only [indexVariables, List.mem_append]
    rcases ih h hw with hw | hw | hw
    · exact .inl hw
    · exact .inr (.inl (.inl hw))
    · exact .inr ((mem_vars_or_mem_of_mem_addReads index hw).imp_left .inr)
  | _ => cases h

end Expr

end ShaderGraph
