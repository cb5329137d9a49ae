import ShaderGraph.Kit.Morph
import ShaderGraph.Proofs.Draft.Retaining

/-!
# Morph attributes keep their weights

A morph attribute has the weight of its place in the list. The block that
morphs a vertex has one statement for each attribute that is used, in the order
of the list; which property it moves is in the attribute's name. Attributes that
are not used have no statement, and their weights are not given to others.
-/

namespace ShaderGraph

variable {σ : Type}

/-- An expression is the weight of a place: a component of the first register for the first four,
and of the second one for the others. -/
def MorphWeightData.Weighs (data : MorphWeightData) (i : Nat) (weight : Expr) : Prop :=
  ∃ register a t, register = (if i < 4 then data.weightsA else data.weightsB) ∧
    a.index = i % 4 ∧ (Swizzle.one a).resultType register.type = .ok t ∧
    weight = .swizzle t (.var register) (.one a)

/-- The names of properties that names of morph attributes start with. -/
def morphPrefixes : List String :=
  [AttributeName.positions, AttributeName.normals, AttributeName.tangents]

/-- Whether a name starts with the name of a property. -/
def usedForMorphing (name : String) : Bool :=
  morphPrefixes.any fun property ↦ property.toList.isPrefixOf name.toList

/-- In the tables of a stage, a statement moves a vertex by the attribute of a name at a place. -/
inductive MorphBlend.Moves (t : Tables) (data : MorphWeightData) (v : MorphVertex) :
    String × Nat → Stmt → Prop
  | position {name : String} {i : Nat} {offset : Variable} {weight : Expr}
      (hname : AttributeName.positions.toList <+: name.toList)
      (hoffset : (SharedKind.attribute .vertexAttribute).Entry t name (.float .three) offset)
      (hweight : data.Weighs i weight) :
    Moves t data v (name, i) (.augment (.var v.position) .add
      (.binary (.float .three) .mul (.var offset) weight))
  | normal {name : String} {i : Nat} {offset : Variable} {weight : Expr}
      (hname : AttributeName.normals.toList <+: name.toList)
      (hoffset : (SharedKind.attribute .vertexAttribute).Entry t name (.float .three) offset)
      (hweight : data.Weighs i weight) :
    Moves t data v (name, i) (.augment (.var v.normal) .add
      (.binary (.float .three) .mul (.var offset) weight))
  | tangent {name : String} {i : Nat} {offset : Variable} {weight : Expr}
      (hname : AttributeName.tangents.toList <+: name.toList)
      (hoffset : (SharedKind.attribute .vertexAttribute).Entry t name (.float .three) offset)
      (hweight : data.Weighs i weight) :
    Moves t data v (name, i)
      (.augment (.swizzle (.float .three) (.var v.tangent) (.three .x .y .z)) .add
        (.binary (.float .three) .mul (.var offset) weight))

/-- A block morphs a vertex: it declares its properties with the values wired to it, moves them by
the attributes that are used, and gives them out. -/
structure MorphBlend.Blends (t : Tables) (m : MorphBlend) (b : Block) (out : MorphVertex) :
    Prop where
  atMost : m.attributes.length ≤ 8
  outputs : b.outputs =
    [⟨"outPosition", out.position⟩, ⟨"outNormal", out.normal⟩, ⟨"outTangent", out.tangent⟩]
  body : ∃ (data : MorphWeightData) (start v : MorphVertex) (stmts : List Stmt),
    t.morphWeights = some data ∧
    b.inputs = [⟨"inPosition", start.position, m.position⟩, ⟨"inNormal", start.normal, m.normal⟩,
      ⟨"inTangent", start.tangent, m.tangent⟩] ∧
    (v.position.type = .float .three ∧ v.normal.type = .float .three ∧
      v.tangent.type = .float .four) ∧
    List.Forall₂ (MorphBlend.Moves t data v)
      (m.attributes.zipIdx.filter fun p ↦ usedForMorphing p.1) stmts ∧
    b.body.statements =
      [.declare v.position (some (.var start.position)),
        .declare v.normal (some (.var start.normal)),
        .declare v.tangent (some (.var start.tangent))] ++ stmts ++
      [.assign (.var out.position) (.var v.position), .assign (.var out.normal) (.var v.normal),
        .assign (.var out.tangent) (.var v.tangent)]

namespace MorphTarget

def namePrefix : MorphTarget → String
  | position => AttributeName.positions
  | normal => AttributeName.normals
  | tangent => AttributeName.tangents

theorem isPrefix_of_ofAttribute? {name : String} {which : MorphTarget}
    (h : ofAttribute? name = some which) : which.namePrefix.toList <+: name.toList := by
  unfold ofAttribute? at h
  split at h
  · next hname =>
    cases h
    exact List.isPrefixOf_iff_prefix.mp hname
  · split at h
    · next hname =>
      cases h
      exact List.isPrefixOf_iff_prefix.mp hname
    · split at h
      · next hname =>
        cases h
        exact List.isPrefixOf_iff_prefix.mp hname
      · cases h

theorem isSome_ofAttribute? (name : String) :
    (ofAttribute? name).isSome = usedForMorphing name := by
  unfold ofAttribute?
  simp only [usedForMorphing, morphPrefixes, List.any_cons, List.any_nil]
  grind

end MorphTarget

namespace MorphWeightData

variable {data : MorphWeightData} {i : Nat} {weight : Expr}

theorem index_componentOf (i : Nat) : (componentOf i).index = i % 4 := by
  have hlt : i % 4 < 4 := Nat.mod_lt i (by decide)
  unfold componentOf
  generalize i % 4 = n at hlt ⊢
  match n, hlt with
  | 0, _ | 1, _ | 2, _ | 3, _ => rfl

theorem weighs_of_weight (h : data.weight i = .ok weight) : i < 8 ∧ data.Weighs i weight := by
  rw [MorphWeightData.weight] at h
  split at h
  · cases h
  · next hcapacity =>
    unfold Expr.select at h
    split at h
    · next t htype =>
      cases h
      exact ⟨not_le.mp hcapacity, _, _, t, rfl, index_componentOf i, htype, rfl⟩
    · cases h

end MorphWeightData

namespace MorphBlend

variable {t t' : Tables} {data : MorphWeightData} {v : MorphVertex} {p : String × Nat}
  {stmt : Stmt}

theorem Moves.mono (h : Moves t data v p stmt) (ht : t.Keeps t') : Moves t' data v p stmt := by
  cases h with
  | position hname hoffset hweight => exact .position hname (hoffset.mono ht) hweight
  | normal hname hoffset hweight => exact .normal hname (hoffset.mono ht) hweight
  | tangent hname hoffset hweight => exact .tangent hname (hoffset.mono ht) hweight

/-- The statement that an attribute adds is one that moves the property in its name. -/
theorem moves_target {name : String} {i : Nat} {which : MorphTarget} {offset : Variable}
    {weight : Expr} (hwhich : MorphTarget.ofAttribute? name = some which)
    (hoffset : (SharedKind.attribute .vertexAttribute).Entry t name (.float .three) offset)
    (hweight : data.Weighs i weight) :
    Moves t data v (name, i)
      (.augment (target v which) .add (.times (.float .three) (.var offset) weight)) := by
  have hname := MorphTarget.isPrefix_of_ofAttribute? hwhich
  cases which with
  | position => exact .position hname hoffset hweight
  | normal => exact .normal hname hoffset hweight
  | tangent => exact .tangent hname hoffset hweight

/-- A place that is passed had a weight. Attributes that are used add a statement each, with the
weight of their place; the others only pass theirs. -/
theorem adds_move (data : MorphWeightData) (v : MorphVertex) {i : Nat} (hi : i ≤ 8)
    (attributes : List String) (b : BlockDraft) :
    (move data v i attributes : Build σ BlockDraft Unit).Ends b fun _ b' ↦
      i + attributes.length ≤ 8 ∧ ∃ stmts, b.Adds stmts b' ∧
        List.Forall₂ (Moves b'.scope.stage.tables data v)
          ((attributes.zipIdx i).filter fun p ↦ usedForMorphing p.1) stmts := by
  induction attributes generalizing i b with
  | nil => exact .pure ⟨hi, [], .refl b, .nil⟩
  | cons name rest ih =>
    refine (Build.Ends.ofExcept _).bind fun weight b₁ h₁ ↦ ?_
    obtain ⟨rfl, hweight⟩ := h₁
    obtain ⟨hplace, hweight⟩ := MorphWeightData.weighs_of_weight hweight
    rw [List.length_cons, List.zipIdx_cons, ← Nat.add_assoc, Nat.add_right_comm]
    have hused := MorphTarget.isSome_ofAttribute? name
    cases hwhich : MorphTarget.ofAttribute? name with
    | none =>
      rw [hwhich] at hused
      rw [List.filter_cons_of_neg (by simp [← hused])]
      exact ih hplace b₁
    | some which =>
      rw [hwhich] at hused
      rw [List.filter_cons_of_pos (by simp [← hused])]
      refine (BlockDraft.adds_onStage (P := fun offset t ↦
        (SharedKind.attribute .vertexAttribute).Entry t name (.float .three) offset)
        (StageDraft.retains_declare (.attribute .vertexAttribute) _ name _)).bind
        fun offset b₂ h₂ ↦ ?_
      obtain ⟨hadds₂, hoffset⟩ := h₂
      refine (BlockDraft.adds_augment b₂ _ _ _).bind fun _ b₃ hadds₃ ↦ (ih hplace b₃).mono ?_
      rintro - b₄ ⟨hlength, stmts, hadds₄, hrest⟩
      refine ⟨hlength, _ :: stmts, (hadds₂.trans hadds₃).trans hadds₄, .cons ?_ hrest⟩
      exact (moves_target hwhich hoffset hweight).mono (hadds₃.tables.trans hadds₄.tables)

theorem ends_body (m : MorphBlend) (s : ScopeDraft) (kind : String) :
    (m.body : Build σ BlockDraft MorphVertex).Ends (s.newBlock kind) fun out b' ↦
      m.Blends b'.scope.stage.tables (b'.toBlock (s.newBlock kind).name kind) out := by
  refine (BlockDraft.adds_onShared (P := fun data r ↦ r.morphWeights = some data)
    (Resources.retains_declareMorphWeights _)).bind fun data b₀ h₀ ↦ ?_
  obtain ⟨hadds₀, hdata⟩ := h₀
  refine (BlockDraft.opens_input b₀ _ _ _).bind fun startPosition b₁ h₁ ↦ ?_
  refine (BlockDraft.opens_input b₁ _ _ _).bind fun startNormal b₂ h₂ ↦ ?_
  refine (BlockDraft.opens_input b₂ _ _ _).bind fun startTangent b₃ h₃ ↦ ?_
  refine (BlockDraft.opens_output b₃ _ _).bind fun outPosition b₄ h₄ ↦ ?_
  refine (BlockDraft.opens_output b₄ _ _).bind fun outNormal b₅ h₅ ↦ ?_
  refine (BlockDraft.opens_output b₅ _ _).bind fun outTangent b₆ h₆ ↦ ?_
  obtain ⟨⟨htype₁, -⟩, hopens₁⟩ := h₁
  obtain ⟨⟨htype₂, -⟩, hopens₂⟩ := h₂
  obtain ⟨⟨htype₃, -⟩, hopens₃⟩ := h₃
  have hopens := ((((hopens₁.trans hopens₂).trans hopens₃).trans h₄.2).trans h₅.2).trans h₆.2
  refine (BlockDraft.adds_bind b₆ _).bind fun position b₇ h₇ ↦ ?_
  refine (BlockDraft.adds_bind b₇ _).bind fun normal b₈ h₈ ↦ ?_
  refine (BlockDraft.adds_bind b₈ _).bind fun tangent b₉ h₉ ↦ ?_
  refine (adds_move data ⟨position, normal, tangent⟩ (Nat.zero_le 8) m.attributes b₉).bind
    fun _ b₁₀ h₁₀ ↦ ?_
  obtain ⟨hlength, stmts, hadds₁₀, hstmts⟩ := h₁₀
  refine (BlockDraft.adds_assign b₁₀ _ _).bind fun _ b₁₁ h₁₁ ↦ ?_
  refine (BlockDraft.adds_assign b₁₁ _ _).bind fun _ b₁₂ h₁₂ ↦ ?_
  refine (BlockDraft.adds_assign b₁₂ _ _).bind fun _ b₁₃ h₁₃ ↦ .pure ?_
  have hadds₁₃ := (h₁₁.trans h₁₂).trans h₁₃
  have hadds := (((h₇.2.trans h₈.2).trans h₉.2).trans hadds₁₀).trans hadds₁₃
  refine ⟨by omega, ?_, data, ⟨startPosition, startNormal, startTangent⟩,
    ⟨position, normal, tangent⟩, stmts, ?_, ?_, ?_, ?_, ?_⟩
  · exact (congrArg Interface.outputs hadds.interface).trans
      (hopens.outputs.trans (congrArg (Interface.outputs · ++ _) hadds₀.interface))
  · exact hadds.tables.morphWeights data (hopens.tables.morphWeights data hdata)
  · exact (congrArg Interface.inputs hadds.interface).trans
      (hopens.inputs.trans (congrArg (Interface.inputs · ++ _) hadds₀.interface))
  · exact ⟨h₇.1.1.trans htype₁, h₈.1.1.trans htype₂, h₉.1.1.trans htype₃⟩
  · exact hstmts.imp fun _ _ h ↦ h.mono hadds₁₃.tables
  · exact hadds.statements.trans
      (congrArg (· ++ _) (hopens.statements.trans hadds₀.statements))

theorem ends_block (m : MorphBlend) (s : ScopeDraft) :
    (m.block : Build σ ScopeDraft MorphVertex).Ends s fun out s' ↦ ∃ b,
      s'.region.statements = s.region.statements ++ [.block b] ∧
        m.Blends s'.stage.tables b out :=
  s.retains_block _ (P := fun out b t ↦ m.Blends t b out) (m.ends_body s _)

/-- A block that morphs a vertex has at most eight attributes, and those that are used have one
statement each, with the weights of their places. It is not built for more, whatever they are. -/
theorem weights_kept (m : MorphBlend) (s : ScopeDraft) (c : σ) :
    (∀ {out : MorphVertex} {s' : ScopeDraft} {c' : σ}, m.block (s, c) = .ok out (s', c') →
      ∃ b, s'.region.statements = s.region.statements ++ [.block b] ∧
        m.Blends s'.stage.tables b out) ∧
    (8 < m.attributes.length → ∃ e s' c', m.block (s, c) = .error e (s', c')) := by
  constructor
  · intro out s' c' h
    exact (m.ends_block s).run h
  · intro hmany
    rcases h : m.block (s, c) with ⟨out, s', c'⟩ | ⟨e, s', c'⟩
    · obtain ⟨b, -, hblends⟩ := (m.ends_block s).run h
      exact absurd hblends.atMost (not_le.mpr hmany)
    · exact ⟨e, s', c', rfl⟩

/-- Attributes of all properties, with some in between that are not used. -/
def mixedAttributes : List String :=
  ["attrib_positions_a", "attrib_colors_a", "attrib_normals_a", "attrib_positions_a",
    "attrib_tangents_a", "", "attrib_normals_b"]

def ofAttributes (attributes : List String) : MorphBlend :=
  ⟨attributes, .zeros .three, .zeros .three, .zeros .four⟩

theorem weights_kept_mixedAttributes :
    (mixedAttributes.zipIdx.filter fun p ↦ usedForMorphing p.1) =
      [("attrib_positions_a", 0), ("attrib_normals_a", 2), ("attrib_positions_a", 3),
        ("attrib_tangents_a", 4), ("attrib_normals_b", 6)] ∧
    (∃ s out s', (ofAttributes mixedAttributes).block (s, ()) = .ok out (s', ()) ∧ ∃ b,
      s'.region.statements = s.region.statements ++ [.block b] ∧
        (ofAttributes mixedAttributes).Blends s'.stage.tables b out) ∧
    ∀ s : ScopeDraft, ∃ e s' c', (ofAttributes (List.replicate 9 "")).block (s, ()) =
      .error e (s', c') := by
  refine ⟨by decide, ⟨(StageDraft.start .vertex .empty).openedFunction none, ?_⟩, ?_⟩
  · obtain ⟨out, s', h⟩ := Build.exists_of_succeeds (x := (ofAttributes mixedAttributes).block)
      (s := (StageDraft.start .vertex .empty).openedFunction none) (by decide +kernel)
    exact ⟨out, s', h, (weights_kept _ _ ()).1 h⟩
  · intro s
    exact (weights_kept _ s ()).2 (by decide)

end MorphBlend

end ShaderGraph
