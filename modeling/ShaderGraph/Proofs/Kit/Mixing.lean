import ShaderGraph.Kit.Color
import ShaderGraph.Kit.Displacement
import ShaderGraph.Proofs.Draft.Retaining

/-!
# The bodies of blocks that mix

A block that mixes sources has a statement for each of them, in their order,
between the declaration of an accumulator and the assignment of its value to
the output. What a source reads is looked up in the tables of the stage, which
only grow while the block is built, so that all sources can be described by the
tables that are there in the end.
-/

namespace ShaderGraph

variable {σ κ : Type}

theorem VarSet.insertAll_append (s : VarSet) (vs ws : List Variable) :
    (s.insertAll vs).insertAll ws = s.insertAll (vs ++ ws) := List.foldl_append.symm

namespace MixMode

variable {accumulator : Variable} {value : Expr}

/-- The statement that mixes a value in. -/
def statement (accumulator : Variable) (value : Expr) : MixMode → Stmt
  | set => .assign (.var accumulator) value
  | multiply => .augment (.var accumulator) .mul value
  | add => .augment (.var accumulator) .add value
  | subtract => .augment (.var accumulator) .sub value

/-- What mixing reads besides the value: the old value of the accumulator, unless it is
replaced. -/
def rereads (accumulator : Variable) : MixMode → List Variable
  | set => []
  | multiply | add | subtract => [accumulator]

theorem reads_statement (mode : MixMode) :
    (mode.statement accumulator value).reads =
      value.reads.insertAll (mode.rereads accumulator) := by
  cases mode <;> rfl

end MixMode

namespace Source

/-- A statement mixes a source in: with a value that is what the source denotes, and reading the
variables of that. -/
def MixedBy (denotes : κ → Expr → List Variable → Prop) (accumulator : Variable) (s : Source κ)
    (stmt : Stmt) : Prop :=
  ∃ value vs, denotes s.kind value vs ∧ stmt = s.mix.statement accumulator value ∧
    stmt.reads = VarSet.empty.insertAll (vs ++ s.mix.rereads accumulator)

/-- A block mixes sources and nothing else, in a variable of its own. -/
structure Mixes (denotes : κ → Expr → List Variable → Prop) (name : String) (dim : Dim)
    (sources : List (Source κ)) (b : Block) (out : Variable) : Prop where
  inputs : b.inputs = []
  outputs : b.outputs = [⟨name, out⟩]
  port : out.type = .float dim ∧ out.kind = .blockOutput
  inner : 3 ≤ b.body.id.index
  body : ∃ accumulator stmts, (accumulator.type = .float dim ∧ accumulator.kind = .localVar ∧
      accumulator.scope = b.body.id) ∧
    List.Forall₂ (MixedBy denotes accumulator) sources stmts ∧
    b.body.statements = .declare accumulator (some (.lit (.float (.splat dim .zero)))) :: stmts ++
      [.assign (.var out) (.var accumulator)]

section Body

variable {D : Tables → κ → Expr → List Variable → Prop}
  {value : κ → Build σ StageDraft Expr}

variable (hmono : ∀ ⦃t t' : Tables⦄ ⦃k : κ⦄ ⦃e : Expr⦄ ⦃vs : List Variable⦄,
    D t k e vs → t.Keeps t' → D t' k e vs)
  (hreads : ∀ ⦃t : Tables⦄ ⦃k : κ⦄ ⦃e : Expr⦄ ⦃vs : List Variable⦄,
    D t k e vs → e.reads = VarSet.empty.insertAll vs)
  (hvalue : ∀ (k : κ) (s : StageDraft), (value k).Ends s fun e s' ↦
    s.tables.Keeps s'.tables ∧ ∃ vs, D s'.tables k e vs)

include hmono in
theorem MixedBy.mono {t t' : Tables} {accumulator : Variable} {s : Source κ} {stmt : Stmt}
    (h : MixedBy (D t) accumulator s stmt) (ht : t.Keeps t') :
    MixedBy (D t') accumulator s stmt := by
  obtain ⟨e, vs, hdenotes, hstmt⟩ := h
  exact ⟨e, vs, hmono hdenotes ht, hstmt⟩

include hreads in
theorem mixedBy_statement {t : Tables} {s : Source κ} {e : Expr} {vs : List Variable}
    (h : D t s.kind e vs) (accumulator : Variable) :
    MixedBy (D t) accumulator s (s.mix.statement accumulator e) := by
  refine ⟨e, vs, h, rfl, ?_⟩
  rw [MixMode.reads_statement, hreads h, VarSet.insertAll_append]

theorem adds_set (b : BlockDraft) (accumulator : Variable) (mode : MixMode) (e : Expr) :
    (Build.onScope (ScopeDraft.set (.var accumulator) mode.augment? e) :
      Build σ BlockDraft Unit).Ends b fun _ b' ↦ b.Adds [mode.statement accumulator e] b' := by
  cases mode with
  | set => exact BlockDraft.adds_assign b _ e
  | multiply | add | subtract => exact BlockDraft.adds_augment b _ _ e

include hmono hreads hvalue

/-- Every source adds one statement, and the tables still describe the ones before it. -/
theorem adds_mixAll (accumulator : Variable) (sources : List (Source κ)) (b : BlockDraft) :
    (mixAll value accumulator sources).Ends b fun _ b' ↦ ∃ stmts, b.Adds stmts b' ∧
      List.Forall₂ (MixedBy (D b'.scope.stage.tables) accumulator) sources stmts := by
  induction sources generalizing b with
  | nil => exact .pure ⟨[], .refl b, .nil⟩
  | cons s rest ih =>
    refine (BlockDraft.adds_onStage (P := fun e t ↦ ∃ vs, D t s.kind e vs)
      (hvalue s.kind _)).bind fun e b₁ h₁ ↦ ?_
    obtain ⟨hadds₁, vs, hdenotes⟩ := h₁
    refine (adds_set b₁ accumulator s.mix e).bind fun _ b₂ hadds₂ ↦ (ih b₂).mono ?_
    rintro - b₃ ⟨stmts, hadds₃, hrest⟩
    refine ⟨s.mix.statement accumulator e :: stmts, (hadds₁.trans hadds₂).trans hadds₃,
      .cons ?_ hrest⟩
    exact (mixedBy_statement hreads hdenotes accumulator).mono hmono
      (hadds₂.tables.trans hadds₃.tables)

theorem ends_mixBody (name : String) (dim : Dim) (sources : List (Source κ)) (s : ScopeDraft)
    (kind : String) :
    (mixBody name dim value sources).Ends (s.newBlock kind) fun out b' ↦
      Mixes (D b'.scope.stage.tables) name dim sources
        (b'.toBlock (s.newBlock kind).name kind) out := by
  refine (BlockDraft.opens_output _ name _).bind fun out b₁ h₁ ↦ ?_
  obtain ⟨hout, hopens⟩ := h₁
  refine (BlockDraft.adds_bind b₁ _).bind fun accumulator b₂ h₂ ↦ ?_
  obtain ⟨⟨htype, hkind, hscope⟩, hadds₂⟩ := h₂
  refine (adds_mixAll hmono hreads hvalue accumulator sources b₂).bind fun _ b₃ h₃ ↦ ?_
  obtain ⟨stmts, hadds₃, hstmts⟩ := h₃
  refine (BlockDraft.adds_assign b₃ _ _).bind fun _ b₄ hadds₄ ↦ .pure ?_
  have hadds := (hadds₂.trans hadds₃).trans hadds₄
  have hinner : 3 ≤ b₄.scope.region.id.index := by
    rw [hadds.id, hopens.id]
    exact Nat.le_add_right 3 _
  refine ⟨?_, ?_, hout, hinner, accumulator, stmts, ⟨htype, hkind, ?_⟩, ?_, ?_⟩
  · exact (congrArg Interface.inputs hadds.interface).trans hopens.inputs
  · exact (congrArg Interface.outputs hadds.interface).trans hopens.outputs
  · exact hscope.trans hadds.id.symm
  · exact hstmts.imp fun _ _ h ↦ h.mono hmono hadds₄.tables
  · exact hadds.statements.trans (congrArg (· ++ _) hopens.statements)

end Body

end Source

/-! ## What sources denote -/

/-- In the tables of a stage, an expression is that of a color. It reads some variables. -/
inductive ColorValue.Denotes (t : Tables) : ColorValue → Expr → List Variable → Prop
  | constant (r g b a : Single) :
    Denotes t (.constant r g b a) (.lit (.float ⟨.four, [r, g, b, a], rfl⟩)) []
  | uniform {name : String} {v : Variable}
      (hv : SharedKind.uniform.Entry t name (.float .four) v) :
    Denotes t (.uniform name) (.var v) [v]
  | vertexColor {name : String} {v : Variable}
      (hv : SharedKind.interStage.Entry t (interStageName name) (.float .four) v) :
    Denotes t (.vertexColor name) (.var v) [v]
  | texture {sampler coords : String} {map coord : Variable}
      (hmap : SharedKind.uniform.Entry t sampler (.sampler .flat) map)
      (hcoord : SharedKind.interStage.Entry t (interStageName coords) (.float .two) coord) :
    Denotes t (.texture sampler coords)
      (.call (.float .four) (.builtin .sample) [.var map, .var coord]) [map, coord]

/-- In the tables of a stage, an expression is that of a property. It reads some variables. -/
inductive PropertyValue.Denotes (t : Tables) : PropertyValue → Expr → List Variable → Prop
  | constant (x : Single) : Denotes t (.constant x) (.lit (.float1 x)) []
  | uniform {name : String} {v : Variable}
      (hv : SharedKind.uniform.Entry t name (.float .one) v) :
    Denotes t (.uniform name) (.var v) [v]
  | vertexAttribute {name : String} {v : Variable}
      (hv : (SharedKind.attribute .vertexAttribute).Entry t name (.float .one) v) :
    Denotes t (.vertexAttribute name) (.var v) [v]
  | texture {sampler coords : String} {map coord : Variable} {a : Selector}
      (hmap : SharedKind.uniform.Entry t sampler (.sampler .flat) map)
      (hcoord : (SharedKind.attribute .vertexAttribute).Entry t coords (.float .two) coord) :
    Denotes t (.texture sampler coords a.index)
      (.swizzle (.float .one) (.call (.float .four) (.builtin .sampleLod)
        [.var map, .var coord, .lit (.float1 .zero)]) (.one a)) [map, coord]

namespace ColorValue

variable {t t' : Tables} {color : ColorValue} {e : Expr} {vs : List Variable}

theorem Denotes.mono (h : color.Denotes t e vs) (ht : t.Keeps t') : color.Denotes t' e vs := by
  cases h with
  | constant r g b a => exact .constant r g b a
  | uniform hv => exact .uniform (hv.mono ht)
  | vertexColor hv => exact .vertexColor (hv.mono ht)
  | texture hmap hcoord => exact .texture (hmap.mono ht) (hcoord.mono ht)

theorem Denotes.reads_eq (h : color.Denotes t e vs) : e.reads = VarSet.empty.insertAll vs := by
  cases h <;> rfl

theorem ends_expr (color : ColorValue) (s : StageDraft) :
    (color.expr : Build σ StageDraft Expr).Ends s fun e s' ↦
      s.tables.Keeps s'.tables ∧ ∃ vs, color.Denotes s'.tables e vs := by
  cases color with
  | constant r g b a => exact .pure ⟨.refl _, _, .constant r g b a⟩
  | uniform name =>
    refine (StageDraft.retains_declare .uniform s name _).bind fun v s₁ h₁ ↦ .pure ?_
    exact ⟨h₁.1, _, .uniform h₁.2⟩
  | vertexColor name =>
    refine (StageDraft.retains_declare .interStage s _ _).bind fun v s₁ h₁ ↦ .pure ?_
    exact ⟨h₁.1, _, .vertexColor h₁.2⟩
  | texture sampler coords =>
    refine (StageDraft.retains_declare .uniform s sampler _).bind fun map s₁ h₁ ↦ ?_
    refine (StageDraft.retains_declare .interStage s₁ _ _).bind fun coord s₂ h₂ ↦ .pure ?_
    exact ⟨h₁.1.trans h₂.1, _, .texture (h₁.2.mono h₂.1) h₂.2⟩

end ColorValue

namespace PropertyValue

variable {t t' : Tables} {property : PropertyValue} {e : Expr} {vs : List Variable}

theorem Denotes.mono (h : property.Denotes t e vs) (ht : t.Keeps t') :
    property.Denotes t' e vs := by
  cases h with
  | constant x => exact .constant x
  | uniform hv => exact .uniform (hv.mono ht)
  | vertexAttribute hv => exact .vertexAttribute (hv.mono ht)
  | texture hmap hcoord => exact .texture (hmap.mono ht) (hcoord.mono ht)

theorem Denotes.reads_eq (h : property.Denotes t e vs) : e.reads = VarSet.empty.insertAll vs := by
  cases h <;> rfl

theorem index_of_channel? {channel : Nat} {a : Selector} (h : channel? channel = some a) :
    a.index = channel := by
  unfold channel? at h
  split at h <;> cases h <;> rfl

theorem ends_expr (property : PropertyValue) (s : StageDraft) :
    (property.expr : Build σ StageDraft Expr).Ends s fun e s' ↦
      s.tables.Keeps s'.tables ∧ ∃ vs, property.Denotes s'.tables e vs := by
  cases property with
  | constant x => exact .pure ⟨.refl _, _, .constant x⟩
  | uniform name =>
    refine (StageDraft.retains_declare .uniform s name _).bind fun v s₁ h₁ ↦ .pure ?_
    exact ⟨h₁.1, _, .uniform h₁.2⟩
  | vertexAttribute name =>
    refine (StageDraft.retains_declare (.attribute .vertexAttribute) s name _).bind
      fun v s₁ h₁ ↦ .pure ?_
    exact ⟨h₁.1, _, .vertexAttribute h₁.2⟩
  | texture sampler coords channel =>
    refine (StageDraft.retains_declare .uniform s sampler _).bind fun map s₁ h₁ ↦ ?_
    refine (StageDraft.retains_declare (.attribute .vertexAttribute) s₁ coords _).bind
      fun coord s₂ h₂ ↦ ?_
    cases hchannel : channel? channel with
    | none => exact .throw trivial
    | some a =>
      obtain rfl := index_of_channel? hchannel
      exact .pure ⟨h₁.1.trans h₂.1, _, .texture (h₁.2.mono h₂.1) h₂.2⟩

end PropertyValue

theorem ColorSource.ends_block (sources : List ColorSource) (s : ScopeDraft) :
    (block sources : Build σ ScopeDraft Variable).Ends s fun out s' ↦ ∃ b,
      s'.region.statements = s.region.statements ++ [.block b] ∧
        Source.Mixes (ColorValue.Denotes s'.stage.tables) "outColor" .four sources b out := by
  apply s.retains_block _ (P := fun out b t ↦
    Source.Mixes (ColorValue.Denotes t) "outColor" .four sources b out)
  apply Build.Yields.draft_bind
  by_cases hkind : (s.newBlock "colorBlock").scope.stage.kind = .fragment
  · rw [if_pos hkind]
    exact Source.ends_mixBody (D := ColorValue.Denotes) (fun _ _ _ _ _ ↦ ColorValue.Denotes.mono)
      (fun _ _ _ _ ↦ ColorValue.Denotes.reads_eq) ColorValue.ends_expr _ _ sources s _
  · rw [if_neg hkind]
    exact .throw trivial

theorem PropertySource.ends_block (sources : List PropertySource) (s : ScopeDraft) :
    (block sources : Build σ ScopeDraft Variable).Ends s fun out s' ↦ ∃ b,
      s'.region.statements = s.region.statements ++ [.block b] ∧
        Source.Mixes (PropertyValue.Denotes s'.stage.tables) "outProperty" .one sources b out := by
  apply s.retains_block _ (P := fun out b t ↦
    Source.Mixes (PropertyValue.Denotes t) "outProperty" .one sources b out)
  exact Source.ends_mixBody (D := PropertyValue.Denotes)
    (fun _ _ _ _ _ ↦ PropertyValue.Denotes.mono) (fun _ _ _ _ ↦ PropertyValue.Denotes.reads_eq)
    PropertyValue.ends_expr _ _ sources s _

end ShaderGraph
