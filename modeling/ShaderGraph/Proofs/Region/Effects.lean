import Mathlib.Tactic.Tauto
import ShaderGraph.Proofs.Region.Occurrence

/-!
# Effects of nested statements

The read and write sets of a statement are those of what it holds itself and
of its regions, less what is hidden. What is in a set occurs somewhere in the
statement.
-/

namespace ShaderGraph

/-! ## Induction over nesting -/

theorem ElseChain.sizeOf_lt_of_mem_regions {chain : ElseChain} {r : Region}
    (h : r ∈ chain.regions) : sizeOf r < sizeOf chain := by
  fun_induction ElseChain.regions chain with
  | case1 => simp at h
  | case2 body =>
    obtain rfl := List.mem_singleton.mp h
    simp
  | case3 condition body rest ih =>
    simp only [ElseChain.elseIf.sizeOf_spec]
    rcases List.mem_cons.mp h with rfl | h
    · omega
    · have := ih h
      omega

theorem Stmt.sizeOf_lt_of_mem_regions {s : Stmt} {r : Region} (h : r ∈ s.regions) :
    sizeOf r < sizeOf s := by
  cases s with
  | branch condition body otherwise =>
    simp only [Stmt.branch.sizeOf_spec]
    rcases List.mem_cons.mp h with rfl | h
    · omega
    · have := ElseChain.sizeOf_lt_of_mem_regions h
      omega
  | loopFor v init condition update body =>
    obtain rfl := List.mem_singleton.mp h
    simp only [Stmt.loopFor.sizeOf_spec]
    omega
  | loopWhile condition body =>
    obtain rfl := List.mem_singleton.mp h
    simp only [Stmt.loopWhile.sizeOf_spec]
    omega
  | block b =>
    obtain rfl := List.mem_singleton.mp h
    cases b
    simp only [Stmt.block.sizeOf_spec, Block.mk.sizeOf_spec]
    omega
  | _ => simp [regions] at h

theorem Region.sizeOf_lt_of_mem_statements {r : Region} {s : Stmt} (h : s ∈ r.statements) :
    sizeOf s < sizeOf r := by
  have := List.sizeOf_lt_of_mem h
  cases r
  simp only [Region.mk.sizeOf_spec] at *
  omega

/-- What holds of a statement as soon as it holds of all statements in its regions, holds. -/
theorem Stmt.nestedInduction {motive : Stmt → Prop}
    (step : ∀ s, (∀ body ∈ s.regions, ∀ t ∈ body.statements, motive t) → motive s) (s : Stmt) :
    motive s :=
  step s fun body hbody t ht ↦
    have := sizeOf_lt_of_mem_regions hbody
    have := Region.sizeOf_lt_of_mem_statements ht
    nestedInduction step t
termination_by sizeOf s

theorem Stmt.contains_readsOfList (ss : List Stmt) (v : Variable) :
    (Stmt.readsOfList ss).contains v = ss.any (·.reads.contains v) := by
  induction ss with
  | nil => simp [Stmt.readsOfList]
  | cons s rest ih => simp [Stmt.readsOfList, ih, Bool.or_comm]

theorem Stmt.contains_writesOfList (ss : List Stmt) (v : Variable) :
    (Stmt.writesOfList ss).contains v = ss.any (·.writes.contains v) := by
  induction ss with
  | nil => simp [Stmt.writesOfList]
  | cons s rest ih => simp [Stmt.writesOfList, ih, Bool.or_comm]

theorem Region.contains_reads (r : Region) (v : Variable) :
    r.reads.contains v =
      (r.statements.any (·.reads.contains v) && !r.declared.any (·.id == v.id)) := by
  cases r
  simp [Region.reads, Stmt.contains_readsOfList]

theorem Region.contains_writes (r : Region) (v : Variable) :
    r.writes.contains v =
      (r.statements.any (·.writes.contains v) && !r.declared.any (·.id == v.id)) := by
  cases r
  simp [Region.writes, Stmt.contains_writesOfList]

theorem ElseChain.contains_reads (chain : ElseChain) (v : Variable) :
    chain.reads.contains v =
      ((chain.conditions.flatMap Expr.vars).any (·.id == v.id) ||
        chain.regions.any (·.reads.contains v)) := by
  fun_induction ElseChain.regions chain with
  | case1 => simp [ElseChain.reads, conditions]
  | case2 body => simp [ElseChain.reads, conditions]
  | case3 condition body rest ih =>
    rw [Bool.eq_iff_iff]
    simp only [ElseChain.reads, conditions, VarSet.contains_union, ih, Expr.contains_reads,
      List.flatMap_cons, List.any_append, List.any_cons, Bool.or_eq_true]
    tauto

theorem ElseChain.contains_writes (chain : ElseChain) (v : Variable) :
    chain.writes.contains v = chain.regions.any (·.writes.contains v) := by
  fun_induction ElseChain.regions chain with
  | case1 => simp [ElseChain.writes]
  | case2 body => simp [ElseChain.writes]
  | case3 condition body rest ih => simp [ElseChain.writes, ih, Bool.or_comm]

/-- The targets of a statement can be assigned to. -/
def Stmt.Assignable (s : Stmt) : Prop := ∀ e, s.target? = some e → ∃ r, e.root? = some r

theorem Stmt.contains_reads {s : Stmt} (hs : s.Assignable) (v : Variable) :
    s.reads.contains v =
      ((s.readVariables.any (·.id == v.id) || s.regions.any (·.reads.contains v)) &&
        !s.loopVariable?.any (·.id == v.id)) := by
  cases s with
  | declare w init => cases init <;>
      simp [Stmt.reads, VarSet.addReads?, readVariables, operands, header, regions, loopVariable?,
        Expr.contains_addReads]
  | assign target value =>
    obtain ⟨r, hr⟩ := hs target rfl
    simp [Stmt.reads, readVariables, regions, loopVariable?, Expr.contains_addTargetReads hr]
  | augment target op value =>
    obtain ⟨r, hr⟩ := hs target rfl
    simp [Stmt.reads, readVariables, regions, loopVariable?, Expr.contains_addTargetReads hr, hr,
      Bool.or_assoc]
  | branch condition body otherwise =>
    rw [Bool.eq_iff_iff]
    simp only [Stmt.reads, readVariables, operands, header, regions, loopVariable?,
      VarSet.contains_union, ElseChain.contains_reads, Expr.contains_reads, List.append_nil,
      List.flatMap_cons, List.any_append, List.any_cons, Option.any_none, Bool.not_false,
      Bool.and_true, Bool.or_eq_true]
    tauto
  | loopFor w init condition update body =>
    rw [Bool.eq_iff_iff]
    simp only [Stmt.reads, readVariables, operands, header, regions, loopVariable?,
      VarSet.contains_erase, VarSet.contains_union, Expr.contains_addReads, Expr.contains_reads,
      List.flatMap_cons, List.flatMap_nil, List.cons_append, List.nil_append, List.append_nil,
      List.any_append, List.any_cons, List.any_nil, Option.any_some, Bool.or_eq_true,
      Bool.and_eq_true, bne_iff_ne, Bool.not_eq_true', beq_eq_false_iff_ne, ne_eq,
      Bool.or_false]
    tauto
  | loopWhile condition body =>
    simp [Stmt.reads, readVariables, operands, header, regions, loopVariable?, Bool.or_comm]
  | leave value => cases value <;>
      simp [Stmt.reads, VarSet.addReads?, readVariables, operands, header, regions, loopVariable?,
        Expr.contains_addReads]
  | block b =>
    cases b
    simp [Stmt.reads, Block.reads, readVariables, operands, header, regions, loopVariable?,
      Expr.contains_addReadsOfList, Expr.varsOfList_eq_flatMap, Bool.or_comm]
  | invoke f args =>
    simp [Stmt.reads, readVariables, operands, header, regions, loopVariable?,
      Expr.contains_addReadsOfList, Expr.varsOfList_eq_flatMap]
  | _ => simp [Stmt.reads, readVariables, operands, header, regions, loopVariable?]

theorem Stmt.contains_writes {s : Stmt} (hs : s.Assignable) (v : Variable) :
    s.writes.contains v =
      ((s.writtenVariables.any (·.id == v.id) || s.regions.any (·.writes.contains v)) &&
        !s.loopVariable?.any (·.id == v.id)) := by
  cases s with
  | declare w init => simp [Stmt.writes, writtenVariables, regions, loopVariable?]
  | assign target value =>
    obtain ⟨r, hr⟩ := hs target rfl
    simp [Stmt.writes, writtenVariables, regions, loopVariable?, VarSet.insert?, hr,
      Expr.targetVariable?_eq_of_root? hr]
  | augment target op value =>
    obtain ⟨r, hr⟩ := hs target rfl
    simp [Stmt.writes, writtenVariables, regions, loopVariable?, VarSet.insert?, hr,
      Expr.targetVariable?_eq_of_root? hr]
  | branch condition body otherwise =>
    simp [Stmt.writes, writtenVariables, regions, loopVariable?, ElseChain.contains_writes,
      Bool.or_comm]
  | loopFor w init condition update body =>
    simp [Stmt.writes, writtenVariables, regions, loopVariable?, bne, Bool.beq_comm]
  | loopWhile condition body => simp [Stmt.writes, writtenVariables, regions, loopVariable?]
  | block b =>
    cases b
    simp [Stmt.writes, Block.writes, writtenVariables, regions, loopVariable?]
  | _ => simp [Stmt.writes, writtenVariables, regions, loopVariable?]

theorem Stmt.exists_mem_of_mem_readsOfList {ss : List Stmt} {v : Variable}
    (h : v ∈ Stmt.readsOfList ss) : ∃ t ∈ ss, v ∈ t.reads := by
  induction ss with
  | nil => exact (VarSet.not_mem_empty v h).elim
  | cons s rest ih =>
    rcases VarSet.mem_or_mem_of_mem_union h with h | h
    · obtain ⟨t, ht, hv⟩ := ih h
      exact ⟨t, List.mem_cons_of_mem s ht, hv⟩
    · exact ⟨s, List.mem_cons_self, h⟩

theorem Stmt.exists_mem_of_mem_writesOfList {ss : List Stmt} {v : Variable}
    (h : v ∈ Stmt.writesOfList ss) : ∃ t ∈ ss, v ∈ t.writes := by
  induction ss with
  | nil => exact (VarSet.not_mem_empty v h).elim
  | cons s rest ih =>
    rcases VarSet.mem_or_mem_of_mem_union h with h | h
    · obtain ⟨t, ht, hv⟩ := ih h
      exact ⟨t, List.mem_cons_of_mem s ht, hv⟩
    · exact ⟨s, List.mem_cons_self, h⟩

theorem Region.exists_mem_of_mem_reads {r : Region} {v : Variable} (h : v ∈ r.reads) :
    ∃ t ∈ r.statements, v ∈ t.reads := by
  cases r
  exact Stmt.exists_mem_of_mem_readsOfList (VarSet.mem_of_mem_eraseAll h)

theorem Region.exists_mem_of_mem_writes {r : Region} {v : Variable} (h : v ∈ r.writes) :
    ∃ t ∈ r.statements, v ∈ t.writes := by
  cases r
  exact Stmt.exists_mem_of_mem_writesOfList (VarSet.mem_of_mem_eraseAll h)

theorem ElseChain.mem_of_mem_reads {chain : ElseChain} {v : Variable} (h : v ∈ chain.reads) :
    v ∈ chain.conditions.flatMap Expr.vars ∨ ∃ body ∈ chain.regions, v ∈ body.reads := by
  fun_induction ElseChain.regions chain with
  | case1 => exact (VarSet.not_mem_empty v h).elim
  | case2 body => exact .inr ⟨body, List.mem_cons_self, h⟩
  | case3 condition body rest ih =>
    rw [conditions, List.flatMap_cons, List.mem_append]
    rcases VarSet.mem_or_mem_of_mem_union h with h | h
    · rcases ih h with h | ⟨b, hb, h⟩
      · exact .inl (.inr h)
      · exact .inr ⟨b, List.mem_cons_of_mem body hb, h⟩
    · rcases VarSet.mem_or_mem_of_mem_union h with h | h
      · exact .inr ⟨body, List.mem_cons_self, h⟩
      · exact .inl (.inl (Expr.mem_vars_of_mem_reads h))

theorem ElseChain.mem_of_mem_writes {chain : ElseChain} {v : Variable} (h : v ∈ chain.writes) :
    ∃ body ∈ chain.regions, v ∈ body.writes := by
  fun_induction ElseChain.regions chain with
  | case1 => exact (VarSet.not_mem_empty v h).elim
  | case2 body => exact ⟨body, List.mem_cons_self, h⟩
  | case3 condition body rest ih =>
    rcases VarSet.mem_or_mem_of_mem_union h with h | h
    · obtain ⟨b, hb, h⟩ := ih h
      exact ⟨b, List.mem_cons_of_mem body hb, h⟩
    · exact ⟨body, List.mem_cons_self, h⟩

theorem Stmt.mem_of_mem_reads {s : Stmt} (hs : s.Assignable) {v : Variable} (h : v ∈ s.reads) :
    v ∈ s.readVariables ∨ ∃ body ∈ s.regions, v ∈ body.reads := by
  cases s with
  | declare w init =>
    cases init with
    | none => exact (VarSet.not_mem_empty v h).elim
    | some e => exact .inl (by simpa [readVariables, operands, header]
        using Expr.mem_vars_of_mem_reads h)
  | assign target value =>
    obtain ⟨r, hr⟩ := hs target rfl
    rw [readVariables, List.mem_append]
    rcases Expr.mem_of_mem_addTargetReads hr h with ⟨hold, -⟩ | h | h
    · cases hold
    · exact .inl (.inl h)
    · exact .inl (.inr (Expr.mem_vars_of_mem_reads h))
  | augment target op value =>
    obtain ⟨r, hr⟩ := hs target rfl
    simp only [readVariables, hr, Option.toList_some, List.mem_append, List.mem_singleton]
    rcases Expr.mem_of_mem_addTargetReads hr h with ⟨-, h⟩ | h | h
    · exact .inl (.inl (.inl h))
    · exact .inl (.inl (.inr h))
    · exact .inl (.inr (Expr.mem_vars_of_mem_reads h))
  | branch condition body otherwise =>
    simp only [readVariables, operands, header, regions, List.append_nil, List.flatMap_cons,
      List.mem_append]
    rcases VarSet.mem_or_mem_of_mem_union h with h | h
    · rcases ElseChain.mem_of_mem_reads h with h | ⟨b, hb, h⟩
      · exact .inl (.inr h)
      · exact .inr ⟨b, List.mem_cons_of_mem body hb, h⟩
    · rcases VarSet.mem_or_mem_of_mem_union h with h | h
      · exact .inr ⟨body, List.mem_cons_self, h⟩
      · exact .inl (.inl (Expr.mem_vars_of_mem_reads h))
  | loopFor w init condition update body =>
    simp only [readVariables, operands, header, regions, List.cons_append, List.nil_append,
      List.flatMap_cons, List.flatMap_nil, List.append_nil, List.mem_append, List.mem_singleton,
      exists_eq_left]
    rcases VarSet.mem_or_mem_of_mem_union (VarSet.mem_of_mem_eraseAll h) with h | h
    · exact .inr h
    · rcases Expr.mem_vars_or_mem_of_mem_addReads update h with h | h
      · exact .inl (.inr (.inr h))
      · rcases Expr.mem_vars_or_mem_of_mem_addReads condition h with h | h
        · exact .inl (.inr (.inl h))
        · exact .inl (.inl (Expr.mem_vars_of_mem_reads h))
  | loopWhile condition body =>
    simp only [readVariables, operands, header, regions, List.append_nil, List.flatMap_cons,
      List.flatMap_nil, List.mem_singleton, exists_eq_left]
    rcases VarSet.mem_or_mem_of_mem_union h with h | h
    · exact .inr h
    · exact .inl (Expr.mem_vars_of_mem_reads h)
  | leave value =>
    cases value with
    | none => exact (VarSet.not_mem_empty v h).elim
    | some e => exact .inl (by simpa [readVariables, operands, header]
        using Expr.mem_vars_of_mem_reads h)
  | block b =>
    cases b with | mk name kind inputs outputs body =>
    simp only [readVariables, operands, header, regions, List.nil_append, List.mem_singleton,
      exists_eq_left]
    rcases VarSet.mem_or_mem_of_mem_union h with h | h
    · exact .inr h
    · rw [← Expr.varsOfList_eq_flatMap]
      exact .inl ((Expr.mem_varsOfList_or_mem_of_mem_addReadsOfList _ h).resolve_right
        (VarSet.not_mem_empty v))
  | invoke f args =>
    refine .inl ?_
    simp only [readVariables, operands, header, List.append_nil]
    rw [← Expr.varsOfList_eq_flatMap]
    exact (Expr.mem_varsOfList_or_mem_of_mem_addReadsOfList _ h).resolve_right
      (VarSet.not_mem_empty v)
  | _ => exact (VarSet.not_mem_empty v h).elim

theorem Stmt.mem_of_mem_writes {s : Stmt} (hs : s.Assignable) {v : Variable} (h : v ∈ s.writes) :
    v ∈ s.writtenVariables ∨ ∃ body ∈ s.regions, v ∈ body.writes := by
  cases s with
  | declare w init =>
    have hw := (VarSet.eq_or_mem_of_mem_insert h).resolve_right (VarSet.not_mem_empty v)
    exact .inl (List.mem_singleton.mpr hw)
  | assign target value =>
    obtain ⟨r, hr⟩ := hs target rfl
    rw [Stmt.writes, Expr.targetVariable?_eq_of_root? hr] at h
    have hw := (VarSet.eq_or_mem_of_mem_insert h).resolve_right (VarSet.not_mem_empty v)
    exact .inl (by simp [writtenVariables, hr, hw])
  | augment target op value =>
    obtain ⟨r, hr⟩ := hs target rfl
    rw [Stmt.writes, Expr.targetVariable?_eq_of_root? hr] at h
    have hw := (VarSet.eq_or_mem_of_mem_insert h).resolve_right (VarSet.not_mem_empty v)
    exact .inl (by simp [writtenVariables, hr, hw])
  | branch condition body otherwise =>
    rcases VarSet.mem_or_mem_of_mem_union h with h | h
    · obtain ⟨b, hb, h⟩ := ElseChain.mem_of_mem_writes h
      exact .inr ⟨b, List.mem_cons_of_mem body hb, h⟩
    · exact .inr ⟨body, List.mem_cons_self, h⟩
  | loopFor w init condition update body =>
    exact .inr ⟨body, List.mem_cons_self, VarSet.mem_of_mem_eraseAll h⟩
  | loopWhile condition body => exact .inr ⟨body, List.mem_cons_self, h⟩
  | block b =>
    cases b with | mk name kind inputs outputs body =>
    rcases VarSet.mem_or_mem_of_mem_insertAll h with h | h
    · exact .inl h
    · exact .inr ⟨body, List.mem_cons_self, h⟩
  | _ => exact (VarSet.not_mem_empty v h).elim

/-! ## Reads and writes alike -/

/-- Sets of statements and regions are collected from what the statements have of their own. -/
structure Collects (f : Stmt → VarSet) (g : Region → VarSet) (own : Stmt → List Variable) :
    Prop where
  contains : ∀ {s : Stmt}, s.Assignable → ∀ v, (f s).contains v =
    (((own s).any (·.id == v.id) || s.regions.any fun r ↦ (g r).contains v) &&
      !s.loopVariable?.any (·.id == v.id))
  region_contains : ∀ (r : Region) (v : Variable), (g r).contains v =
    (r.statements.any (fun t ↦ (f t).contains v) && !r.declared.any (·.id == v.id))
  mem : ∀ {s : Stmt}, s.Assignable → ∀ {v}, v ∈ f s → v ∈ own s ∨ ∃ body ∈ s.regions, v ∈ g body
  region_mem : ∀ {r : Region} {v : Variable}, v ∈ g r → ∃ t ∈ r.statements, v ∈ f t

theorem Stmt.reads_collects : Collects Stmt.reads Region.reads Stmt.readVariables where
  contains := Stmt.contains_reads
  region_contains := Region.contains_reads
  mem := Stmt.mem_of_mem_reads
  region_mem := Region.exists_mem_of_mem_reads

theorem Stmt.writes_collects : Collects Stmt.writes Region.writes Stmt.writtenVariables where
  contains := Stmt.contains_writes
  region_contains := Region.contains_writes
  mem := Stmt.mem_of_mem_writes
  region_mem := Region.exists_mem_of_mem_writes

end ShaderGraph
