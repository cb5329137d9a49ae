import ShaderGraph.Proofs.Region.Contents

/-!
# Statements that write a variable

A statement is listed with all statements in its regions, at any depth, so that
those which write a variable can be told one by one. Statements whose writes stay
within a function write nothing that another stage could see.
-/

namespace ShaderGraph

/-- Variables of the scopes in a function, which nothing outside of it sees. -/
def Variable.Inner (v : Variable) : Prop := v.kind = .localVar ∨ v.kind = .blockOutput

theorem Variable.not_inner {v : Variable} {k : VariableKind} (h : v.kind = k)
    (hk : k ≠ .localVar ∧ k ≠ .blockOutput) : ¬v.Inner := by
  subst h
  exact fun hv ↦ hv.elim hk.1 hk.2

namespace Stmt

/-- A statement and the statements in it, at any depth. -/
def tree (t : Stmt) : List Stmt := t :: t.within.flatMap Region.statements

/-- Nothing that is seen outside of a function is written by a statement, at any depth. -/
def Inward (t : Stmt) : Prop := ∀ u ∈ t.tree, ∀ v ∈ u.writtenVariables, v.Inner

end Stmt

/-- The statements that write a variable, among some and the statements in them. -/
def Stmt.writersIn (ss : List Stmt) (v : Variable) : List Stmt :=
  (ss.flatMap tree).filter (v ∈ ·.writtenVariables)

/-- The statements that write a variable, at any depth of a region. -/
def Region.writers (r : Region) (v : Variable) : List Stmt := Stmt.writersIn r.statements v

/-- The last statement of a region assigns a variable, and nothing else in it does. -/
def Region.WritesLast (r : Region) (v : Variable) : Prop :=
  ∃ pre value, r.statements = pre ++ [.assign (.var v) value] ∧
    r.writers v = [.assign (.var v) value]

theorem Region.mem_statements_all {r : Region} {u : Stmt} :
    u ∈ r.all.flatMap Region.statements ↔ ∃ t ∈ r.statements, u ∈ t.tree := by
  rw [Region.all_eq, List.flatMap_cons, List.mem_append, List.flatMap_assoc]
  constructor
  · rintro (hu | hu)
    · exact ⟨u, hu, List.mem_cons_self⟩
    · obtain ⟨t, ht, hu⟩ := List.mem_flatMap.mp hu
      exact ⟨t, ht, List.mem_cons_of_mem t hu⟩
  · rintro ⟨t, ht, hu⟩
    rcases List.mem_cons.mp hu with rfl | hu
    · exact .inl ht
    · exact .inr (List.mem_flatMap.mpr ⟨t, ht, hu⟩)

/-- A tree has what is nested in a statement. -/
theorem Nested.mem_tree {ss : List Stmt} {path : List ScopeId} {u : Stmt} (h : Nested ss path u) :
    u ∈ ss.flatMap Stmt.tree := by
  induction h with
  | @here ss t ht => exact List.mem_flatMap.mpr ⟨t, ht, List.mem_cons_self⟩
  | @inside ss t body path u ht hbody _ ih =>
    refine List.mem_flatMap.mpr ⟨t, ht, List.mem_cons_of_mem t ?_⟩
    rw [Stmt.within_eq_flatMap, List.flatMap_assoc]
    exact List.mem_flatMap.mpr ⟨body, hbody, Region.mem_statements_all.mpr (List.mem_flatMap.mp ih)⟩

theorem Stmt.exists_nested_of_mem_tree {t u : Stmt} (h : u ∈ t.tree) :
    ∃ path, Nested [t] path u := by
  induction t using Stmt.nestedInduction with
  | step t ih =>
    rcases List.mem_cons.mp h with rfl | h
    · exact ⟨[], .here List.mem_cons_self⟩
    · rw [within_eq_flatMap, List.flatMap_assoc] at h
      obtain ⟨body, hbody, h⟩ := List.mem_flatMap.mp h
      obtain ⟨s, hs, h⟩ := Region.mem_statements_all.mp h
      obtain ⟨path, hnested⟩ := ih body hbody s hs h
      exact ⟨_, .inside List.mem_cons_self hbody
        (hnested.mono fun _ hmem ↦ List.mem_singleton.mp hmem ▸ hs)⟩

/-- The writers of a variable are the statements nested in a region that write it. -/
theorem Region.mem_writers_iff {r : Region} {v : Variable} {u : Stmt} :
    u ∈ r.writers v ↔ (∃ path, Nested r.statements path u) ∧ v ∈ u.writtenVariables := by
  rw [writers, Stmt.writersIn, List.mem_filter, decide_eq_true_eq]
  refine and_congr_left fun _ ↦ ⟨fun h ↦ ?_, fun ⟨_, h⟩ ↦ h.mem_tree⟩
  obtain ⟨t, ht, h⟩ := List.mem_flatMap.mp h
  obtain ⟨path, hnested⟩ := Stmt.exists_nested_of_mem_tree h
  exact ⟨path, hnested.mono fun _ hmem ↦ List.mem_singleton.mp hmem ▸ ht⟩

namespace Stmt

variable {t : Stmt} {v : Variable}

theorem tree_of_leaf (h : t.regions = []) : t.tree = [t] := by
  rw [tree, within_eq_flatMap, h, List.flatMap_nil, List.flatMap_nil]

theorem inward_of_leaf (h : t.regions = [])
    (hv : ∀ v ∈ t.writtenVariables, v.Inner) : t.Inward := by
  intro u hu
  rw [tree_of_leaf h, List.mem_singleton] at hu
  exact hu ▸ hv

/-- A statement with a body is as inward as the body is, if it writes nothing else itself. -/
theorem inward_of_body {r : Region} (h : t.within = r.all) (hr : ∀ s ∈ r.statements, s.Inward)
    (hv : ∀ v ∈ t.writtenVariables, v.Inner) : t.Inward := by
  intro u hu
  rcases List.mem_cons.mp hu with rfl | hu
  · exact hv
  · rw [h] at hu
    obtain ⟨s, hs, hu⟩ := Region.mem_statements_all.mp hu
    exact hr s hs u hu

theorem writersIn_append (ss ss' : List Stmt) (v : Variable) :
    writersIn (ss ++ ss') v = writersIn ss v ++ writersIn ss' v := by
  rw [writersIn, List.flatMap_append, List.filter_append]
  rfl

theorem writersIn_of_inward {ss : List Stmt} (h : ∀ t ∈ ss, t.Inward) (hv : ¬v.Inner) :
    writersIn ss v = [] := by
  refine List.filter_eq_nil_iff.mpr fun u hu hmem ↦ hv ?_
  obtain ⟨t, ht, hu⟩ := List.mem_flatMap.mp hu
  exact h t ht u hu v (of_decide_eq_true hmem)

/-- A block without outputs writes what its statements write. -/
theorem writersIn_block {b : Block} (houtputs : b.outputs = [])
    (hleaves : ∀ t ∈ b.body.statements, t.regions = []) (v : Variable) :
    writersIn [.block b] v = b.body.statements.filter (v ∈ ·.writtenVariables) := by
  have hwithin : (Stmt.block b).within.flatMap Region.statements = b.body.statements := by
    have hnil : b.body.statements.flatMap within = [] :=
      List.flatMap_eq_nil_iff.mpr fun t ht ↦ by
        rw [within_eq_flatMap, hleaves t ht, List.flatMap_nil]
    rw [within_eq_flatMap, regions, List.flatMap_cons, List.flatMap_nil, List.append_nil,
      Region.all_eq, hnil, List.flatMap_cons, List.flatMap_nil, List.append_nil]
  have hv : v ∉ (Stmt.block b).writtenVariables := by
    rw [writtenVariables, houtputs]
    exact List.not_mem_nil
  rw [writersIn, List.flatMap_cons, List.flatMap_nil, List.append_nil, tree, hwithin,
    List.filter_cons_of_neg (by simpa using hv)]

theorem writersIn_assign (v w : Variable) (value : Expr) :
    writersIn [.assign (.var w) value] v = if v = w then [.assign (.var w) value] else [] := by
  have hwritten : (Stmt.assign (.var w) value).writtenVariables = [w] := rfl
  have htree : (Stmt.assign (.var w) value).tree = [.assign (.var w) value] := tree_of_leaf rfl
  rw [writersIn, List.flatMap_cons, List.flatMap_nil, List.append_nil, htree]
  simp only [List.filter_cons, List.filter_nil, hwritten, List.mem_singleton, decide_eq_true_eq]

end Stmt

/-- An assignment at the end is all that writes a variable, if nothing before it does. -/
theorem Region.writesLast_of_append {r : Region} {v : Variable} {pre : List Stmt} {value : Expr}
    (h : r.statements = pre ++ [.assign (.var v) value]) (hpre : Stmt.writersIn pre v = []) :
    r.WritesLast v := by
  refine ⟨pre, value, h, ?_⟩
  rw [writers, h, Stmt.writersIn_append, hpre, Stmt.writersIn_assign, if_pos rfl]
  rfl

end ShaderGraph
