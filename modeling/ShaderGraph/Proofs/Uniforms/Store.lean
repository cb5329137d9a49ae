import Mathlib.Data.List.Induction
import Mathlib.Data.List.Nodup
import ShaderGraph.Uniforms.Feed

/-!
# What stores hold

A store of variables with different names is given by its variables and the
floats of each. Slots that are dropped, places that are looked up and values
that are written are then described by the variables alone.
-/

namespace ShaderGraph

/-- The number of floats of a uniform of a type. -/
def ValueType.floats (t : ValueType) : Nat := t.elementFloats * t.elements

namespace Slot

variable {offset k : Nat} {new old : List Single}

@[simp] theorem length_overwrite (offset : Nat) (new old : List Single) :
    (overwrite offset new old).length = old.length := by
  unfold overwrite
  split
  · simp only [List.length_append, List.length_take, List.length_drop]
    omega
  · rfl

/-- A value that is written replaces what it reaches. -/
theorem getElem?_overwrite (hk : k < old.length) : (overwrite offset new old)[k]? =
    if offset ≤ k ∧ k < offset + new.length then new[k - offset]? else old[k]? := by
  unfold overwrite
  split
  · next hoffset =>
    simp only [List.append_assoc, List.getElem?_append, List.length_take, List.getElem?_take,
      List.getElem?_drop]
    grind
  · next hoffset => rw [if_neg (by omega)]

end Slot

/-- The floats of every variable, by their numbers. -/
abbrev Contents := Variable → Nat → Single

namespace Contents

/-- The contents with other floats of one variable, from an offset on. -/
def overwrite (g : Contents) (v : Variable) (offset : Nat) (new : List Single) : Contents :=
  fun w k ↦ if w = v ∧ offset ≤ k then new.getD (k - offset) (g w k) else g w k

end Contents

namespace Slot

/-- The slot of a variable. -/
def holding (g : Contents) (v : Variable) : Slot :=
  ⟨v.name, v.type, (List.range v.type.floats).map (g v)⟩

theorem zeros_eq_holding (v : Variable) :
    zeros v.name v.type = holding (fun _ _ ↦ .zero) v := by
  simp [zeros, holding, ValueType.floats]

theorem write_holding (g : Contents) (v : Variable) (offset : Nat) (new : List Single) :
    (holding g v).write offset new = holding (g.overwrite v offset new) v := by
  have hvalues : overwrite offset new ((List.range v.type.floats).map (g v)) =
      (List.range v.type.floats).map (g.overwrite v offset new v) := by
    refine List.ext_getElem? fun k ↦ ?_
    by_cases hk : k < v.type.floats
    · rw [getElem?_overwrite (by simpa using hk)]
      simp only [Contents.overwrite, List.getElem?_map, List.getElem?_range hk, Option.map_some]
      grind
    · have hlength : ¬k < (overwrite offset new ((List.range v.type.floats).map (g v))).length := by
        simpa using hk
      rw [List.getElem?_eq_none (Nat.not_lt.mp hlength), List.getElem?_eq_none (by simpa using hk)]
  simp only [write, holding, hvalues]

end Slot

namespace UniformStore

variable {vs : List Variable} {v : Variable} {g g' : Contents} {location : Nat}

/-- The store of variables with their floats. -/
def holding (vs : List Variable) (g : Contents) : UniformStore := ⟨vs.map (Slot.holding g)⟩

/-- Only the floats that are there matter. -/
theorem holding_congr (h : ∀ v ∈ vs, ∀ k < v.type.floats, g v k = g' v k) :
    holding vs g = holding vs g' := by
  refine congrArg UniformStore.mk (List.map_congr_left fun v hv ↦ ?_)
  have hvalues : (List.range v.type.floats).map (g v) = (List.range v.type.floats).map (g' v) :=
    List.map_congr_left fun k hk ↦ h v hv k (List.mem_range.mp hk)
  simp only [Slot.holding, hvalues]

theorem putSlot_of_new {s : Slot} {slots : List Slot} (h : ∀ t ∈ slots, t.name ≠ s.name) :
    putSlot s slots = slots ++ [s] := by
  induction slots with
  | nil => rfl
  | cons t rest ih =>
    rw [putSlot, if_neg (h t List.mem_cons_self), ih fun u hu ↦ h u (List.mem_cons_of_mem t hu)]
    rfl

/-- A store starts with nothing but zeros. -/
theorem ofUniforms_eq_holding (h : (vs.map Variable.name).Nodup) :
    ofUniforms vs = holding vs fun _ _ ↦ .zero := by
  induction vs using List.reverseRecOn with
  | nil => rfl
  | append_singleton vs v ih =>
    rw [List.map_append, List.nodup_append] at h
    obtain ⟨hvs, -, hnew⟩ := h
    have hslots : ∀ t ∈ (holding vs fun _ _ ↦ .zero).slots,
        t.name ≠ (Slot.zeros v.name v.type).name := by
      intro t ht
      obtain ⟨w, hw, rfl⟩ := List.mem_map.mp ht
      exact hnew w.name (List.mem_map_of_mem hw) v.name (by simp)
    rw [ofUniforms, List.foldl_concat, ← ofUniforms, ih hvs, insert, putSlot_of_new hslots,
      Slot.zeros_eq_holding, holding, holding, List.map_append]
    rfl

theorem without_holding (h : (vs.map Variable.name).Nodup) (g : Contents) (name : String) :
    (holding vs g).without name = holding (vs.filter (·.name != name)) g := by
  induction vs with
  | nil => rfl
  | cons v rest ih =>
    rw [List.map_cons, List.nodup_cons] at h
    have hrest := congrArg UniformStore.slots (ih h.2)
    simp only [without, holding] at hrest
    by_cases hv : v.name = name
    · have hkept : rest.filter (·.name != name) = rest := by
        refine List.filter_eq_self.mpr fun w hw ↦ bne_iff_ne.mpr fun hname ↦ ?_
        exact h.1 (List.mem_map.mpr ⟨w, hw, hname.trans hv.symm⟩)
      simp [without, holding, Slot.holding, hv, hkept]
    · have hslot : ((Slot.holding g v).name == name) = false := beq_eq_false_iff_ne.mpr hv
      have hkept : (v.name != name) = true := bne_iff_ne.mpr hv
      simp [without, holding, hslot, hkept, hrest]

theorem foldl_without_holding (h : (vs.map Variable.name).Nodup) (g : Contents)
    (drops : List String) :
    drops.foldl without (holding vs g) = holding (vs.filter (·.name ∉ drops)) g := by
  induction drops generalizing vs with
  | nil => simp
  | cons name rest ih =>
    have hkept : ((vs.filter (·.name != name)).map Variable.name).Nodup :=
      h.sublist (List.filter_sublist.map _)
    rw [List.foldl_cons, without_holding h, ih hkept, List.filter_filter]
    congr 2
    funext v
    grind

theorem resolve_holding (vs : List Variable) (g : Contents) (name : String) :
    (holding vs g).resolve name = vs.findIdx? (·.name == name) := by
  simp only [resolve, holding, List.findIdx?_map]
  rfl

theorem elementsAt_holding (h : vs[location]? = some v) (g : Contents) :
    (holding vs g).elementsAt location = v.type.elements := by
  simp [elementsAt, holding, h, Slot.holding]

theorem write_holding (hvs : vs.Nodup) (h : vs[location]? = some v) (g : Contents) (offset : Nat)
    (new : List Single) :
    (holding vs g).write location offset new = holding vs (g.overwrite v offset new) := by
  refine congrArg UniformStore.mk (List.ext_getElem? fun i ↦ ?_)
  rw [holding, List.getElem?_modify, List.getElem?_map, List.getElem?_map]
  cases hi : vs[i]? with
  | none => simp
  | some w =>
    by_cases hloc : location = i
    · subst hloc
      obtain rfl : v = w := Option.some.inj (h.symm.trans hi)
      simp [Slot.write_holding]
    · have hne : w ≠ v := fun heq ↦ by
        subst heq
        have hlt := (List.getElem?_eq_some_iff.mp h).1
        exact hloc ((List.getElem?_inj hlt hvs).mp (h.trans hi.symm))
      simp [hloc, Slot.holding, Contents.overwrite, hne]

/-- Where a variable is found. -/
theorem findIdx?_eq_some (hvs : (vs.map Variable.name).Nodup) (hv : v ∈ vs) :
    ∃ location, vs.findIdx? (·.name == v.name) = some location ∧ vs[location]? = some v := by
  cases hfind : vs.findIdx? (·.name == v.name) with
  | none => simpa using List.findIdx?_eq_none_iff.mp hfind v hv
  | some location =>
    obtain ⟨hlt, hname, -⟩ := List.findIdx?_eq_some_iff_getElem.mp hfind
    have heq : vs[location] = v :=
      List.inj_on_of_nodup_map hvs (List.getElem_mem hlt) hv (by simpa using hname)
    exact ⟨location, rfl, heq ▸ List.getElem?_eq_getElem hlt⟩

end UniformStore

end ShaderGraph
