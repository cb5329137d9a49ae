import Mathlib.Data.List.Forall2
import Mathlib.Logic.Function.Basic
import ShaderGraph.Proofs.Kit.Blocks
import ShaderGraph.Proofs.Kit.Mixing
import ShaderGraph.Proofs.Script.Reached
import ShaderGraph.Proofs.Single.Rounding

/-!
# Constant properties

A vertex property that is a constant is not computed. Whether it is one is
decided by the look of its sources, while the block that would be built goes
through all of them. Here both are values: the sources are folded by their
modes, starting from zero, and so are the statements of the block, over exact
numbers. The shortcut tells the value if that is zero, or if the constant is set
or added; it forgets about the modes that leave something else behind, and
about the zero that there is without any source.
-/

namespace ShaderGraph

/-! ## Folding sources -/

/-- What a mode makes of an old and a new value. -/
def MixMode.combine : MixMode → ℚ → ℚ → ℚ
  | set, _, new => new
  | multiply, old, new => old * new
  | add, old, new => old + new
  | subtract, old, new => old - new

/-- The values that uniforms and attributes have by their names, and the channels of a texture at
coordinates. -/
structure PropertyReadings where
  uniform : String → ℚ
  attributes : String → ℚ
  texel : String → String → Nat → ℚ

def PropertyValue.value (ρ : PropertyReadings) : PropertyValue → ℚ
  | constant x => x.value
  | uniform name => ρ.uniform name
  | vertexAttribute name => ρ.attributes name
  | texture sampler coords channel => ρ.texel sampler coords channel

namespace PropertySource

/-- Sources mixed into a value, in their order. -/
def mixedFrom (ρ : PropertyReadings) (start : ℚ) (sources : List PropertySource) : ℚ :=
  sources.foldl (fun x s ↦ s.mix.combine x (s.kind.value ρ)) start

def mixed (ρ : PropertyReadings) (sources : List PropertySource) : ℚ := mixedFrom ρ 0 sources

theorem isEmptyOrConst_iff {v : Single} {sources : List PropertySource} :
    isEmptyOrConst v sources = true ↔
      sources = [] ∨ ∃ x mode, sources = [⟨.constant x, mode⟩] ∧ x.equal v = true := by
  constructor
  · intro h
    unfold isEmptyOrConst at h
    split at h
    · exact .inl rfl
    · next x mode => exact .inr ⟨x, mode, rfl, h⟩
    · cases h
  · rintro (rfl | ⟨x, mode, rfl, h⟩)
    · rfl
    · exact h

/-- Whether sources that pass for a constant give it does not depend on what is read. -/
theorem mixed_eq_value_iff {v : Single} {sources : List PropertySource}
    (h : isEmptyOrConst v sources = true) (ρ : PropertyReadings) :
    mixed ρ sources = v.value ↔ v.value = 0 ∨
      ∃ x mode, sources = [⟨.constant x, mode⟩] ∧ (mode = .set ∨ mode = .add) := by
  rcases isEmptyOrConst_iff.mp h with rfl | ⟨x, mode, rfl, hx⟩
  · rw [or_iff_left (by rintro ⟨x, mode, hnil, -⟩; cases hnil)]
    exact eq_comm
  · have hmode : (∃ y mode', [(⟨.constant x, mode⟩ : PropertySource)] = [⟨.constant y, mode'⟩] ∧
        (mode' = .set ∨ mode' = .add)) ↔ mode = .set ∨ mode = .add := by
      constructor
      · rintro ⟨y, mode', heq, hmode'⟩
        cases heq
        exact hmode'
      · exact fun hmode ↦ ⟨x, mode, rfl, hmode⟩
    have hvalue : mixed ρ [⟨.constant x, mode⟩] = mode.combine 0 v.value := by
      rw [← Single.value_eq_of_equal hx]
      rfl
    rw [hmode, hvalue]
    cases mode with
    | set => simp [MixMode.combine]
    | multiply => simp [MixMode.combine, eq_comm]
    | add => simp [MixMode.combine]
    | subtract =>
      have hneg : -v.value = v.value ↔ v.value = 0 := neg_eq_self
      simpa [MixMode.combine] using hneg

end PropertySource

/-! ## Running statements -/

/-- The values of scalar variables, and the channels of textures at coordinates and levels. -/
structure ScalarMemory where
  scalar : Variable → ℚ
  texel : Variable → Variable → ℚ → Nat → ℚ

namespace ScalarMemory

variable {m : ScalarMemory} {t : Tables} {accumulator : Variable} {x y : ℚ}

def write (m : ScalarMemory) (v : Variable) (x : ℚ) : ScalarMemory :=
  { m with scalar := Function.update m.scalar v x }

/-- The value of an expression of the kind that properties are. -/
def eval? (m : ScalarMemory) : Expr → Option ℚ
  | .lit (.float ⟨.one, [x], _⟩) => some x.value
  | .var v => some (m.scalar v)
  | .swizzle _ (.call _ (.builtin .sampleLod)
      [.var map, .var coord, .lit (.float ⟨.one, [lod], _⟩)]) (.one a) =>
    some (m.texel map coord lod.value a.index)
  | _ => none

def augmented? (old new : ℚ) : AugmentOp → Option ℚ
  | .mul => some (old * new)
  | .add => some (old + new)
  | .sub => some (old - new)
  | _ => none

/-- Runs a statement of the kind that the block of a property has. -/
def step? (m : ScalarMemory) : Stmt → Option ScalarMemory
  | .declare v (some e) | .assign (.var v) e => (m.eval? e).map (m.write v)
  | .augment (.var v) op e => do
    let new ← m.eval? e
    let x ← augmented? (m.scalar v) new op
    return m.write v x
  | _ => none

def run? (m : ScalarMemory) (stmts : List Stmt) : Option ScalarMemory := stmts.foldlM step? m

/-- What a memory has for the names in the tables of a stage. -/
def readings (m : ScalarMemory) (t : Tables) : PropertyReadings where
  uniform name := ((t.uniforms.find? (·.name == name)).map m.scalar).getD 0
  attributes name := ((t.attributes.find? (·.name == name)).map m.scalar).getD 0
  texel sampler coords channel :=
    match t.uniforms.find? (·.name == sampler), t.attributes.find? (·.name == coords) with
    | some map, some coord => m.texel map coord 0 channel
    | _, _ => 0

@[simp] theorem scalar_write_self : (m.write accumulator x).scalar accumulator = x := by
  simp [write]

@[simp] theorem write_write :
    (m.write accumulator x).write accumulator y = m.write accumulator y := by
  simp [write]

@[simp] theorem write_self : m.write accumulator (m.scalar accumulator) = m := by
  simp [write]

/-- Writing a variable that is in no table changes nothing that is read by name. -/
theorem readings_write (huniforms : accumulator ∉ t.uniforms)
    (hattributes : accumulator ∉ t.attributes) :
    (m.write accumulator x).readings t = m.readings t := by
  have hkept {known : List Variable} (hknown : accumulator ∉ known) (name : String) :
      (known.find? (·.name == name)).map (m.write accumulator x).scalar =
        (known.find? (·.name == name)).map m.scalar := by
    apply Option.map_congr
    intro v hv
    have hne : v ≠ accumulator := by
      rintro rfl
      exact hknown (List.mem_of_find?_eq_some hv)
    exact Function.update_of_ne hne x m.scalar
  simp only [readings, hkept huniforms, hkept hattributes]
  rfl

theorem eval?_of_denotes {property : PropertyValue} {e : Expr} {vs : List Variable}
    (h : property.Denotes t e vs) : m.eval? e = some (property.value (m.readings t)) := by
  cases h with
  | constant x => rfl
  | @uniform name v hv =>
    have hfound : t.uniforms.find? (·.name == name) = some v := hv.found
    simp [eval?, PropertyValue.value, readings, hfound]
  | @vertexAttribute name v hv =>
    have hfound : t.attributes.find? (·.name == name) = some v := hv.found
    simp [eval?, PropertyValue.value, readings, hfound]
  | @texture sampler coords map coord a hmap hcoord =>
    have hfoundMap : t.uniforms.find? (·.name == sampler) = some map := hmap.found
    have hfoundCoord : t.attributes.find? (·.name == coords) = some coord := hcoord.found
    simp [eval?, PropertyValue.value, readings, hfoundMap, hfoundCoord, Literal.float1,
      Components.scalar]

theorem step?_statement {e : Expr} (h : m.eval? e = some y) (mode : MixMode) :
    m.step? (mode.statement accumulator e) =
      some (m.write accumulator (mode.combine (m.scalar accumulator) y)) := by
  cases mode <;> simp [MixMode.statement, step?, h, augmented?, MixMode.combine]

theorem run?_cons {stmt : Stmt} {stmts : List Stmt} {m₁ : ScalarMemory}
    (h : m.step? stmt = some m₁) : m.run? (stmt :: stmts) = m₁.run? stmts := by
  rw [run?, List.foldlM_cons, h]
  rfl

theorem run?_append {stmts stmts' : List Stmt} {m₁ : ScalarMemory} (h : m.run? stmts = some m₁) :
    m.run? (stmts ++ stmts') = m₁.run? stmts' := by
  rw [run?, List.foldlM_append, ← run?, h]
  rfl

/-- The statements of sources fold them into the accumulator, which none of them reads by name. -/
theorem run?_mixed (huniforms : accumulator ∉ t.uniforms) (hattributes : accumulator ∉ t.attributes)
    {sources : List PropertySource} {stmts : List Stmt}
    (h : List.Forall₂ (Source.MixedBy (PropertyValue.Denotes t) accumulator) sources stmts)
    (m : ScalarMemory) :
    m.run? stmts = some (m.write accumulator
      (PropertySource.mixedFrom (m.readings t) (m.scalar accumulator) sources)) := by
  induction h generalizing m with
  | nil => simp [run?, PropertySource.mixedFrom]
  | @cons s stmt rest stmts hs _ ih =>
    obtain ⟨e, vs, hdenotes, rfl, -⟩ := hs
    rw [run?_cons (step?_statement (eval?_of_denotes hdenotes) s.mix), ih,
      readings_write huniforms hattributes, scalar_write_self, write_write]
    rfl

/-- The block of a property gives its sources mixed in order. -/
theorem run?_of_mixes {sources : List PropertySource} {name : String} {b : Block} {out : Variable}
    (h : Source.Mixes (PropertyValue.Denotes t) name .one sources b out)
    (houter : ∀ v ∈ t.uniforms ++ t.attributes, v.scope.index < 3) (m : ScalarMemory) :
    ∃ m', m.run? b.body.statements = some m' ∧
      m'.scalar out = PropertySource.mixed (m.readings t) sources := by
  obtain ⟨accumulator, stmts, ⟨-, -, hscope⟩, hstmts, hbody⟩ := h.body
  have hinner : ¬accumulator.scope.index < 3 := by
    rw [hscope]
    exact Nat.not_lt_of_le h.inner
  have huniforms : accumulator ∉ t.uniforms := fun hmem ↦
    hinner (houter accumulator (List.mem_append_left _ hmem))
  have hattributes : accumulator ∉ t.attributes := fun hmem ↦
    hinner (houter accumulator (List.mem_append_right _ hmem))
  have hstart : m.step? (.declare accumulator (some (.lit (.float (.splat .one .zero))))) =
      some (m.write accumulator 0) := by
    rw [← Single.value_zero]
    rfl
  have hmixed := run?_mixed huniforms hattributes hstmts (m.write accumulator 0)
  rw [readings_write huniforms hattributes, scalar_write_self, write_write] at hmixed
  rw [hbody, List.cons_append, run?_cons hstart, run?_append hmixed]
  exact ⟨_, rfl, by simp [PropertySource.mixed]⟩

end ScalarMemory

namespace PropertySource

variable {σ : Type}

/-- The tables hold what is declared outside of functions, whatever kind it is of. -/
theorem scope_lt_of_block {R : Registry} {s s' : ScopeDraft} (hs : s.Invariant R)
    {sources : List PropertySource} {c c' : σ} {out : Variable}
    (h : block sources (s, c) = .ok out (s', c')) :
    ∀ v ∈ s'.stage.tables.uniforms ++ s'.stage.tables.attributes, v.scope.index < 3 := by
  let C : Client σ := ⟨fun _ _ ↦ True, fun _ _ ↦ trivial⟩
  have hfollows := traced_block (C := C) (R := R) sources R le_rfl s c hs trivial
  rw [h] at hfollows
  obtain ⟨R', hev, -, -⟩ := hfollows
  have hs' : (Draft.scope s').Invariant R' := hev.invariant hs
  intro v hv
  rcases List.mem_append.mp hv with hv | hv
  · obtain ⟨-, -, hscope⟩ := hs'.of_entry (k := .uniform) hv
    rw [hscope]
    decide
  · have hscope : v.scope = .stage .vertex := (hs'.of_entry (k := .attribute v.kind) hv).2
    rw [hscope]
    exact ScopeId.stage_lt .vertex

/-- The block of a property gives its sources mixed in order, from wherever it is built. -/
theorem block_gives_mixed {s s' : ScopeDraft} {l : Ledger} (hs : Reached (.scope s) l)
    {sources : List PropertySource} {c c' : σ} {out : Variable}
    (h : block sources (s, c) = .ok out (s', c')) :
    ∃ b, s'.region.statements = s.region.statements ++ [.block b] ∧
      ∀ m : ScalarMemory, ∃ m', m.run? b.body.statements = some m' ∧
        m'.scalar out = mixed (m.readings s'.stage.tables) sources := by
  obtain ⟨R, -, hinvariant⟩ := hs.sound
  obtain ⟨b, hstatements, hmixes⟩ := (ends_block sources s).run h
  refine ⟨b, hstatements, ?_⟩
  intro m
  exact ScalarMemory.run?_of_mixes hmixes (scope_lt_of_block hinvariant h) m

/-- Sources that pass for a constant. Their property is that constant, whatever is read, exactly if
the constant is zero, or it is a source that is set or added. Where the block of the property is
built nevertheless, it gives what the sources mixed in order give. -/
theorem constant_exact {v : Single} {sources : List PropertySource}
    (hconst : isEmptyOrConst v sources = true) :
    ((∀ ρ, mixed ρ sources = v.value) ↔ v.value = 0 ∨
      ∃ x mode, sources = [⟨.constant x, mode⟩] ∧ (mode = .set ∨ mode = .add)) ∧
    ∀ {s s' : ScopeDraft} {l : Ledger} {c c' : σ} {out : Variable}, Reached (.scope s) l →
      block sources (s, c) = .ok out (s', c') →
        ∃ b, s'.region.statements = s.region.statements ++ [.block b] ∧
          ∀ m : ScalarMemory, ∃ m', m.run? b.body.statements = some m' ∧
            m'.scalar out = mixed (m.readings s'.stage.tables) sources := by
  constructor
  · constructor
    · intro h
      exact (mixed_eq_value_iff hconst ⟨0, 0, 0⟩).mp (h _)
    · intro h ρ
      exact (mixed_eq_value_iff hconst ρ).mpr h
  · intro s s' l c c' out hs hblock
    exact block_gives_mixed hs hblock

/-- A constant that is added to nothing. -/
def addedOne : List PropertySource := [⟨.constant .one, .add⟩]

theorem constant_exact_addedOne :
    isEmptyOrConst .one addedOne = true ∧ (∀ ρ, mixed ρ addedOne = Single.one.value) ∧
      ∃ s out s', block addedOne (s, ()) = .ok out (s', ()) ∧ ∃ b,
        s'.region.statements = s.region.statements ++ [.block b] ∧ ∀ m : ScalarMemory, ∃ m',
          m.run? b.body.statements = some m' ∧ m'.scalar out = 1 := by
  have hconst : isEmptyOrConst .one addedOne = true := by decide
  obtain ⟨hiff, hblock⟩ := constant_exact (σ := Unit) hconst
  have hvalue : ∀ ρ, mixed ρ addedOne = Single.one.value :=
    hiff.mpr (.inr ⟨.one, .add, rfl, .inr rfl⟩)
  refine ⟨hconst, hvalue, (StageDraft.start .vertex .empty).openedFunction none, ?_⟩
  obtain ⟨out, s', h⟩ := Build.exists_of_succeeds (x := block addedOne)
    (s := (StageDraft.start .vertex .empty).openedFunction none) (by decide +kernel)
  obtain ⟨b, hstatements, hb⟩ := hblock ((reached_stageStart .vertex).openFunction [] [] none) h
  refine ⟨out, s', h, b, hstatements, ?_⟩
  intro m
  obtain ⟨m', hm', hout⟩ := hb m
  exact ⟨m', hm', by rw [hout, hvalue, Single.value_one]⟩

/-- Sources can pass for one while their property is zero or minus one: the constant is multiplied
with zero, or subtracted from it, or there is none. -/
theorem passes_for_other_constant :
    Single.one.isFinite = true ∧ Single.one.value = 1 ∧
      (isEmptyOrConst .one [⟨.constant .one, .multiply⟩] = true ∧
        ∀ ρ, mixed ρ [⟨.constant .one, .multiply⟩] = 0) ∧
      (isEmptyOrConst .one [⟨.constant .one, .subtract⟩] = true ∧
        ∀ ρ, mixed ρ [⟨.constant .one, .subtract⟩] = -1) ∧
      (isEmptyOrConst .one [] = true ∧ ∀ ρ, mixed ρ [] = 0) := by
  refine ⟨by decide, Single.value_one, ⟨by decide, ?_⟩, ⟨by decide, ?_⟩, by decide, ?_⟩
  · intro ρ
    simp [mixed, mixedFrom, MixMode.combine]
  · intro ρ
    simp [mixed, mixedFrom, MixMode.combine, PropertyValue.value]
  · intro ρ
    rfl

end PropertySource

end ShaderGraph
