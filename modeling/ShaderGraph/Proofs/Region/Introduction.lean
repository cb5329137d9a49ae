import ShaderGraph.Proofs.Region.Contents

/-!
# What regions introduce

The variables that a region declares come from its statements, which introduce
variables where they stand, or from the statement around it, which gives them
to the region. A variable is new where it is introduced: it stands in no earlier
statement and not in the value that it starts with.
-/

namespace ShaderGraph

namespace Stmt

/-- The variables that a statement brings into the scope it stands in. -/
def introduced : Stmt → List Variable
  | .declare v _ => [v]
  | .block b => b.outputs.map BlockOutput.slot
  | .assign .. | .augment .. | .branch .. | .loopFor .. | .loopWhile .. | .breakLoop
  | .continueLoop | .discard | .leave _ | .inline _ | .invoke .. => []

/-- The variables that a statement brings into its region itself. -/
def given : Stmt → List Variable
  | .loopFor v _ _ _ _ => [v]
  | .block b => b.inputs.map BlockInput.slot
  | .declare .. | .assign .. | .augment .. | .branch .. | .loopWhile .. | .breakLoop
  | .continueLoop | .discard | .leave _ | .inline _ | .invoke .. => []

/-- All variables that stand in a statement itself: in its expressions, as what it introduces or
gives, and where its regions declare them. -/
def mentioned (s : Stmt) : List Variable :=
  (s.operands ++ s.header).flatMap Expr.vars ++ s.introduced ++ s.given ++
    s.regions.flatMap Region.declared

theorem given_eq_nil {s : Stmt} (h : s.regions = []) : s.given = [] := by
  cases s <;> first | rfl | cases h

theorem introduced_subset_written {s : Stmt} : s.introduced ⊆ s.writtenVariables := by
  cases s <;> first | exact List.Subset.refl _ | exact List.nil_subset _

end Stmt

/-- The variables that the statements of a region introduce, in order. -/
def Region.introduced (r : Region) : List Variable := r.statements.flatMap Stmt.introduced

/-- A variable stands somewhere in some statements. -/
def OccursWithin (ss : List Stmt) (v : Variable) : Prop :=
  ∃ path t, Nested ss path t ∧ v ∈ t.mentioned

/-- A list is made of two others, each of them in its order. -/
inductive Interleaves {α : Type} : List α → List α → List α → Prop
  | nil : Interleaves [] [] []
  | left {xs ys zs : List α} (x : α) (h : Interleaves xs ys zs) : Interleaves (x :: xs) ys (x :: zs)
  | right {xs ys zs : List α} (y : α) (h : Interleaves xs ys zs) :
      Interleaves xs (y :: ys) (y :: zs)

/-- Variables are new where statements introduce them. -/
structure Orderly (ss : List Stmt) : Prop where
  earlier : ss.Pairwise fun s t ↦ ∀ v ∈ t.introduced, ¬OccursWithin [s] v
  initial : ∀ v e, .declare v (some e) ∈ ss → v ∉ e.vars

/-- A region declares just what it was given and what its statements introduce, in the order in
which the variables were made, and variables are new where they are introduced. -/
structure Region.WellDeclared (given : List Variable) (r : Region) : Prop where
  scope : ∀ v ∈ r.declared, v.scope = r.id
  ascending : r.declared.Pairwise fun v w ↦ v.id < w.id
  exact : Interleaves given r.introduced r.declared
  orderly : Orderly r.statements

/-- The regions of a statement declare what it gives them and what they introduce. What is given
comes first, but for the inputs of a block, which are declared among its statements. -/
structure Stmt.WellDeclared (s : Stmt) : Prop where
  regions : ∀ r ∈ s.regions, r.WellDeclared s.given
  first : s.blockName? = none → ∀ r ∈ s.regions, r.declared = s.given ++ r.introduced

/-- All that is nested in some statements declares what it should. -/
structure WellDeclared (ss : List Stmt) : Prop where
  statement : ∀ {path t}, Nested ss path t → t.WellDeclared

namespace Interleaves

variable {α : Type} {xs ys zs xs' ys' zs' : List α}

theorem append (h : Interleaves xs ys zs) (h' : Interleaves xs' ys' zs') :
    Interleaves (xs ++ xs') (ys ++ ys') (zs ++ zs') := by
  induction h with
  | nil => exact h'
  | left x _ ih => exact .left x ih
  | right y _ ih => exact .right y ih

theorem nil_left (ys : List α) : Interleaves [] ys ys := by
  induction ys with
  | nil => exact .nil
  | cons y ys ih => exact .right y ih

theorem nil_right (xs : List α) : Interleaves xs [] xs := by
  induction xs with
  | nil => exact .nil
  | cons x xs ih => exact .left x ih

theorem eq_of_nil_left (h : Interleaves [] ys zs) : zs = ys := by
  generalize hxs : ([] : List α) = xs at h
  induction h with
  | nil => rfl
  | left x _ ih => cases hxs
  | right y _ ih => rw [ih hxs]

theorem sublist_left (h : Interleaves xs ys zs) : xs.Sublist zs := by
  induction h with
  | nil => exact .slnil
  | left x _ ih => exact ih.cons_cons x
  | right y _ ih => exact ih.cons y

end Interleaves

section

variable {ss : List Stmt} {s : Stmt}

theorem OccursWithin.of_mem {v : Variable} (hs : s ∈ ss) (h : OccursWithin [s] v) :
    OccursWithin ss v := by
  obtain ⟨path, t, ht, hv⟩ := h
  exact ⟨path, t, ht.mono fun u hu ↦ List.mem_singleton.mp hu ▸ hs, hv⟩

namespace Orderly

theorem nil : Orderly [] := ⟨.nil, fun _ _ h ↦ by cases h⟩

/-- A statement comes to others in which nothing that it introduces stands. -/
theorem concat (h : Orderly ss) (hnew : ∀ v ∈ s.introduced, ¬OccursWithin ss v)
    (hinit : ∀ v e, s = .declare v (some e) → v ∉ e.vars) : Orderly (ss ++ [s]) where
  earlier := by
    refine List.pairwise_append.mpr ⟨h.earlier, List.pairwise_singleton _ _, ?_⟩
    intro t ht u hu v hv hoccurs
    obtain rfl := List.mem_singleton.mp hu
    exact hnew v hv (hoccurs.of_mem ht)
  initial v e he := by
    rcases List.mem_append.mp he with he | he
    · exact h.initial v e he
    · exact hinit v e (List.mem_singleton.mp he).symm

theorem concat_of_nil (h : Orderly ss) (hs : s.introduced = []) : Orderly (ss ++ [s]) :=
  h.concat (fun v hv ↦ by simp [hs] at hv) fun v e he ↦ by
    rw [he] at hs
    cases hs

theorem dropLast (h : Orderly ss) : Orderly ss.dropLast where
  earlier := h.earlier.sublist (List.dropLast_sublist ss)
  initial v e he := h.initial v e ((List.dropLast_sublist ss).mem he)

end Orderly

namespace WellDeclared

theorem nil : WellDeclared [] where
  statement ht := by
    obtain ⟨s, hs, -⟩ := ht.exists_mem
    cases hs

/-- Statements are replaced by others, whose regions are from these but for one body. -/
theorem replace {ss' : List Stmt} {body : Region} (h : WellDeclared ss)
    (hbody : WellDeclared body.statements) (hown : ∀ s ∈ ss', s.WellDeclared)
    (hregions : ∀ s ∈ ss', ∀ r ∈ s.regions, r = body ∨ ∃ t ∈ ss, r ∈ t.regions) :
    WellDeclared ss' where
  statement ht := by
    cases ht with
    | here hs => exact hown _ hs
    | inside hs hr ht =>
      rcases hregions _ hs _ hr with rfl | ⟨u, hu, hr⟩
      · exact hbody.statement ht
      · exact h.statement (.inside hu hr ht)

theorem concat (h : WellDeclared ss) (hs : s.WellDeclared)
    (hbodies : ∀ r ∈ s.regions, WellDeclared r.statements) : WellDeclared (ss ++ [s]) where
  statement ht := by
    rcases Nested.append_iff.mp ht with ht | ht
    · exact h.statement ht
    · rcases Nested.singleton_iff.mp ht with ⟨-, rfl⟩ | ⟨r, hr, rest, -, ht⟩
      · exact hs
      · exact (hbodies r hr).statement ht

end WellDeclared

theorem Stmt.WellDeclared.leaf (h : s.regions = []) : s.WellDeclared :=
  ⟨fun r hr ↦ by simp [h] at hr, fun _ r hr ↦ by simp [h] at hr⟩

theorem Stmt.WellDeclared.of_body {body : Region} (hregions : s.regions = [body])
    (hbody : body.WellDeclared s.given)
    (hfirst : s.blockName? = none → body.declared = s.given ++ body.introduced) :
    s.WellDeclared := by
  refine ⟨fun r hr ↦ ?_, fun hs r hr ↦ ?_⟩
  all_goals
    rw [hregions] at hr
    obtain rfl := List.mem_singleton.mp hr
  · exact hbody
  · exact hfirst hs

end

end ShaderGraph
