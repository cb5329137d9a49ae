import ShaderGraph.Proofs.Draft.Acceptance
import ShaderGraph.Proofs.Draft.Kinds
import ShaderGraph.Proofs.Script.Reached

/-!
# What statements write

Assignments check their target once, in the stage and the scope that they are
made in. That a target is writable, and in reach there, is enough to tell which
variables the assignments of a finished stage can change: none that are only
read, and none of the other stage.
-/

namespace ShaderGraph

/-- An expression selects from a variable, by any swizzles and indices one after another. -/
inductive Expr.Selects (v : Variable) : Expr → Prop
  | whole : Selects v (.var v)
  | components {type : ValueType} {source : Expr} {mask : Swizzle} (h : Selects v source) :
      Selects v (.swizzle type source mask)
  | entry {type : ValueType} {object index : Expr} (h : Selects v object) :
      Selects v (.lookup type object index)

theorem Expr.selects_iff_of_root? {e : Expr} {v w : Variable} (h : e.root? = some v) :
    e.Selects w ↔ w = v := by
  fun_induction Expr.root? e with
  | case1 u =>
    obtain rfl := Option.some.inj h
    constructor
    · rintro ⟨⟩
      rfl
    · rintro rfl
      exact .whole
  | case2 type source mask _ ih =>
    rw [← ih h]
    constructor
    · intro hs
      cases hs with
      | components hs => exact hs
    · exact .components
  | case3 => cases h
  | case4 type object index ih =>
    rw [← ih h]
    constructor
    · intro hs
      cases hs with
      | entry hs => exact hs
    · exact .entry
  | case5 | case6 | case7 | case8 => cases h

/-- If a variable is in no scope of the other stage, and its kind belongs to a stage, then it is in
the scope of this one. -/
theorem Variable.Housed.own {v : Variable} {k k' : StageKind} (h : v.Housed)
    (hscope : ∀ i, v.scope = .stage i → i = k) (hk : v.kind.stage? = some k') :
    v.scope = .stage k ∧ (k' = k ∨ k = .vertex) := by
  rcases h with hvertex | hown
  · obtain rfl := hscope .vertex hvertex
    exact ⟨hvertex, .inr rfl⟩
  · obtain rfl := hscope k' (hown k' hk)
    exact ⟨hown k' hk, .inl rfl⟩

namespace Variable.Writable

variable {v : Variable} {k : StageKind}

theorem builtin (h : v.Writable k) {b : BuiltIn} (hb : v.kind = .builtIn b) :
    b.writable = true := by
  have hread := h.1
  rw [hb] at hread
  simpa [VariableKind.readOnly] using hread

end Variable.Writable

/-- The root of an assignment is writable, known and in reach. -/
theorem Stmt.Accepted.root {R : Registry} {V : List Variable} {k : StageKind}
    {frames : List Frame} {chain : List ScopeId} {t : Stmt} (h : t.Accepted R k frames)
    (hplaced : t.Placed V k chain) {target : Expr} (htarget : t.target? = some target) :
    ∃ v, target.root? = some v ∧ v.Writable k ∧ v ∈ R.vars ∧ v.InReach k chain := by
  have hroot : target.Known R ∧ target ∈ t.operands ∧
      ∃ v, target.root? = some v ∧ v.Writable k := by
    cases h with
    | assign hknown _ hroot | augment hknown _ hroot =>
      obtain rfl := Option.some.inj htarget
      exact ⟨hknown, List.mem_cons_self, hroot⟩
    | _ => cases htarget
  obtain ⟨hknown, hmem, v, hv, hwritable⟩ := hroot
  have hvars : v ∈ target.vars := (Expr.mem_vars_iff_of_root? hv).mpr (.inl rfl)
  exact ⟨v, hv, hwritable, hknown.mem_vars hvars, (hplaced.operands target hmem v hvars).2⟩

end ShaderGraph
