import ShaderGraph.Proofs.Kit.Mixing

/-!
# Sources are mixed in order

Whatever the sources of a color or of a vertex property are, the block that
mixes them has one statement for each of them, in their order, and nothing
besides but the accumulator and the output. No source is lost or mixed in by
another mode than its own, and what a statement reads is what its source reads.
-/

namespace ShaderGraph

variable {σ : Type}

/-- A block that was built mixes its sources in order: it declares an accumulator that is zero,
mixes every source into it by its mode, and assigns it to the output. -/
theorem sources_mixed_in_order {s s' : ScopeDraft} {c c' : σ} {out : Variable} :
    (∀ sources : List ColorSource, ColorSource.block sources (s, c) = .ok out (s', c') →
      ∃ b, s'.region.statements = s.region.statements ++ [.block b] ∧
        Source.Mixes (ColorValue.Denotes s'.stage.tables) "outColor" .four sources b out) ∧
    ∀ sources : List PropertySource, PropertySource.block sources (s, c) = .ok out (s', c') →
      ∃ b, s'.region.statements = s.region.statements ++ [.block b] ∧
        Source.Mixes (PropertyValue.Denotes s'.stage.tables) "outProperty" .one sources b out := by
  constructor
  · intro sources h
    exact (ColorSource.ends_block sources s).run h
  · intro sources h
    exact (PropertySource.ends_block sources s).run h

/-- The body of a function of a stage in which nothing has been declared. -/
def StageKind.emptyBody (kind : StageKind) : ScopeDraft :=
  (StageDraft.start kind .empty).openedFunction none

/-- Colors of every kind, in every mode. The texture is read twice. -/
def layeredColors : List ColorSource :=
  [⟨.texture "uMap" "attrib_uv", .set⟩, ⟨.vertexColor "attrib_colors", .multiply⟩,
    ⟨.uniform "uTint", .add⟩, ⟨.constant .one .zero .zero .one, .subtract⟩,
    ⟨.texture "uMap" "attrib_uv", .multiply⟩]

/-- Properties of every kind, in every mode, a constant in the middle. -/
def layeredProperty : List PropertySource :=
  [⟨.vertexAttribute "attrib_height", .add⟩, ⟨.constant .one, .subtract⟩,
    ⟨.texture "uHeights" "attrib_uv" 2, .multiply⟩, ⟨.uniform "uHeight", .set⟩]

theorem sources_mixed_in_order_layered :
    (∃ out s', ColorSource.block layeredColors (StageKind.emptyBody .fragment, ()) =
        .ok out (s', ()) ∧ ∃ b, s'.region.statements = [.block b] ∧
          Source.Mixes (ColorValue.Denotes s'.stage.tables) "outColor" .four layeredColors b out) ∧
    ∃ out s', PropertySource.block layeredProperty (StageKind.emptyBody .vertex, ()) =
        .ok out (s', ()) ∧ ∃ b, s'.region.statements = [.block b] ∧
          Source.Mixes (PropertyValue.Denotes s'.stage.tables) "outProperty" .one layeredProperty b
            out := by
  constructor
  · obtain ⟨out, s', h⟩ := Build.exists_of_succeeds (x := ColorSource.block layeredColors)
      (s := StageKind.emptyBody .fragment) (by decide +kernel)
    exact ⟨out, s', h, sources_mixed_in_order.1 layeredColors h⟩
  · obtain ⟨out, s', h⟩ := Build.exists_of_succeeds (x := PropertySource.block layeredProperty)
      (s := StageKind.emptyBody .vertex) (by decide +kernel)
    exact ⟨out, s', h, sources_mixed_in_order.2 layeredProperty h⟩

end ShaderGraph
