import ShaderGraph.Proofs.Expr.Shape
import ShaderGraph.Proofs.Writes

/-!
# Components of targets

An assignment to a swizzle changes the components that the swizzle selects, and
swizzles can be put on swizzles. What such a target addresses in the end is found
by going down through all of them. Checked selections stay inside of what they
select from, and those that can be assigned to select nothing twice, so no
component is addressed twice through the whole chain.
-/

namespace ShaderGraph

/-- The number of components of a value. What has none to select counts as one. -/
def ValueType.width (t : ValueType) : Nat := (t.dim.map Dim.count).getD 1

namespace Expr

/-- The value that the swizzles on an expression select from: a variable, or an element or column,
if the expression can be assigned to. -/
def selectedFrom : Expr → Expr
  | swizzle _ source _ => source.selectedFrom
  | e => e

/-- Where component `i` of an expression lies in the value that its swizzles select from. -/
def place? : Expr → Nat → Option Nat
  | swizzle _ source mask, i => mask.selectors[i]?.bind fun a ↦ source.place? a.index
  | _, i => some i

end Expr

theorem Selector.index_injective : Function.Injective Selector.index := by
  rintro (_ | _ | _ | _) (_ | _ | _ | _) h <;> first | rfl | cases h

/-- A selection has a component for each selector, and each selector is one of the source. -/
theorem Swizzle.width_of_resultType {mask : Swizzle} {source t : ValueType}
    (h : mask.resultType source = .ok t) :
    t.width = mask.selectors.length ∧ ∀ a ∈ mask.selectors, a.index < source.width := by
  unfold resultType at h
  split at h
  · next kind dim =>
    split at h
    · cases h
    · split at h
      · cases h
      · split at h
        · cases h
        · next hfind =>
          cases h
          refine ⟨mask.length_selectors.symm, fun a ha ↦ ?_⟩
          have hin := Bool.eq_false_iff.mpr (List.find?_eq_none.mp hfind a ha)
          exact not_le.mp (of_decide_eq_false hin)
  · cases h

namespace Expr

variable {e source : Expr} {mask : Swizzle} {v : Variable}

theorem select_eq_ok : select source mask = .ok e ↔
    ∃ t, mask.resultType source.type = .ok t ∧ e = swizzle t source mask := by
  unfold select
  split
  · next t h => simp [h, eq_comm]
  · next h => simp [h]

theorem place?_swizzle {t : ValueType} {i : Nat} {a : Selector} (h : mask.selectors[i]? = some a) :
    (swizzle t source mask).place? i = source.place? a.index := by
  rw [place?, h, Option.bind_some]

/-- The components of an expression lie in the value that its swizzles select from, at places of
their own. -/
structure DistinctPlaces (e : Expr) : Prop where
  place : ∀ i < e.type.width, ∃ j < e.selectedFrom.type.width, e.place? i = some j
  distinct : ∀ i < e.type.width, ∀ k < e.type.width, e.place? i = e.place? k → i = k

namespace DistinctPlaces

theorem of_whole (hfrom : e.selectedFrom = e) (hplace : ∀ i, e.place? i = some i) :
    e.DistinctPlaces where
  place i hi := ⟨i, hfrom.symm ▸ hi, hplace i⟩
  distinct i _ k _ heq := by simpa [hplace] using heq

/-- The places of a selection are places of its source, which are distinct if no selector is
repeated. -/
theorem swizzle (h : source.DistinctPlaces) (hmask : mask.assignable = true) {t : ValueType}
    (htype : mask.resultType source.type = .ok t) : (swizzle t source mask).DistinctPlaces := by
  obtain ⟨hwidth, hindex⟩ := Swizzle.width_of_resultType htype
  have hselector {i : Nat} (hi : i < t.width) :
      ∃ a, mask.selectors[i]? = some a ∧ a.index < source.type.width := by
    have hi : i < mask.selectors.length := hwidth ▸ hi
    exact ⟨_, List.getElem?_eq_getElem hi, hindex _ (List.getElem_mem hi)⟩
  refine ⟨fun i hi ↦ ?_, fun i hi k hk heq ↦ ?_⟩
  · obtain ⟨a, ha, ha'⟩ := hselector hi
    rw [place?_swizzle ha]
    exact h.place a.index ha'
  · obtain ⟨a, ha, ha'⟩ := hselector hi
    obtain ⟨b, hb, hb'⟩ := hselector hk
    rw [place?_swizzle ha, place?_swizzle hb] at heq
    obtain rfl := Selector.index_injective (h.distinct _ ha' _ hb' heq)
    have hnodup : mask.selectors.Nodup := of_decide_eq_true hmask
    exact (List.getElem?_inj (hwidth ▸ hi) hnodup).mp (ha.trans hb.symm)

end DistinctPlaces

theorem exists_lookup_of_element {object index : Expr} (h : element object index = .ok e) :
    ∃ t, e = lookup t object index := by
  obtain ⟨-, h⟩ := unit_bind_eq_ok.mp h
  split at h
  · cases h
  · next t length _ =>
    obtain ⟨-, h⟩ := unit_bind_eq_ok.mp h
    exact ⟨t, (Except.ok.inj h).symm⟩

theorem root?_of_apply {op : UnaryOp} {a : Expr} (h : apply op a = .ok e) : e.root? = none := by
  unfold apply at h
  split at h <;> cases h
  rfl

theorem root?_of_join {op : BinaryOp} {a b : Expr} (h : join op a b = .ok e) :
    e.root? = none := by
  unfold join at h
  split at h <;> cases h
  rfl

theorem root?_of_invoke {callee : Callee} {args : List Expr} (h : invoke callee args = .ok e) :
    e.root? = none := by
  unfold invoke at h
  split at h <;> cases h
  rfl

/-- A target of an assignment addresses no component twice, however its swizzles are put on each
other, and none outside of the value that they select from. -/
theorem Checked.distinctPlaces_of_root? (he : e.Checked) (hroot : e.root? = some v) :
    e.DistinctPlaces ∧ ∀ w, e.Selects w ↔ w = v := by
  refine ⟨?_, fun w ↦ selects_iff_of_root? hroot⟩
  induction he with
  | lit => cases hroot
  | var w => exact .of_whole rfl fun _ ↦ rfl
  | apply _ h => exact absurd hroot (by simp [root?_of_apply h])
  | join _ _ h => exact absurd hroot (by simp [root?_of_join h])
  | invoke _ h => exact absurd hroot (by simp [root?_of_invoke h])
  | select _ h ih =>
    obtain ⟨t, htype, rfl⟩ := select_eq_ok.mp h
    rw [root?] at hroot
    split at hroot
    · next hmask => exact (ih hroot).swizzle hmask htype
    · cases hroot
  | element _ _ h =>
    obtain ⟨t, rfl⟩ := exists_lookup_of_element h
    exact .of_whole rfl fun _ ↦ rfl

/-- A local copy of a bone's matrix. -/
def boneMatrix : Variable := ⟨0, "bone", .matrix .four, .program, .localVar⟩

/-- A swizzle of a swizzle of a matrix column. -/
def columnParts : Expr :=
  .swizzle (.float .two)
    (.swizzle (.float .three) (.lookup (.float .four) (.var boneMatrix) (.lit (.int1 2)))
      (.three .w .y .x))
    (.two .z .x)

theorem Checked.distinctPlaces_of_root?_columnParts :
    columnParts.Checked ∧ columnParts.root? = some boneMatrix ∧
      [0, 1].map columnParts.place? = [some 0, some 3] ∧
        columnParts.DistinctPlaces ∧ ∀ w, columnParts.Selects w ↔ w = boneMatrix := by
  let column : Expr := .lookup (.float .four) (.var boneMatrix) (.lit (.int1 2))
  have hcolumn : column.Checked := .element (.var boneMatrix) (.lit (.int1 2)) rfl
  have hreversed : column.select (.three .w .y .x) =
      .ok (.swizzle (.float .three) column (.three .w .y .x)) := rfl
  have hparts : (Expr.swizzle (.float .three) column (.three .w .y .x)).select (.two .z .x) =
      .ok columnParts := rfl
  have hchecked : columnParts.Checked := .select (.select hcolumn hreversed) hparts
  exact ⟨hchecked, rfl, rfl, hchecked.distinctPlaces_of_root? rfl⟩

end Expr

end ShaderGraph
