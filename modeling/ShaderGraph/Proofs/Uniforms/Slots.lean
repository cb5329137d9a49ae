import Mathlib.Data.Fintype.Basic
import Mathlib.Data.List.FinRange
import Mathlib.Data.List.Nodup
import Mathlib.Tactic.FinCases
import ShaderGraph.Proofs.Uniforms.Store

/-!
# Slots by name

Whatever its owner does with a store, it is a map from names to floats, where
names have an order besides: a name that comes again keeps its place, and the
names after one that goes move up. What is written to the place where a name is
found reaches the slot of this name alone, and of it no more than there is.
-/

namespace ShaderGraph

/-- What the owner of a store does. A write goes to the place where the name is found then. -/
inductive StoreOp where
  | insert (name : String) (type : ValueType)
  | without (name : String)
  | write (name : String) (offset : Nat) (new : List Single)

namespace StoreOp

def apply (store : UniformStore) : StoreOp → UniformStore
  | insert name type => store.insert name type
  | without name => store.without name
  | write name offset new =>
    match store.resolve name with
    | some location => store.write location offset new
    | none => store

end StoreOp

namespace UniformStore

/-- The store after some operations. -/
def after (ops : List StoreOp) : UniformStore := ops.foldl StoreOp.apply empty

/-- The type and the floats of a name. -/
def stored? (store : UniformStore) (name : String) : Option (ValueType × List Single) :=
  (store.slots.find? (·.name == name)).map fun s ↦ (s.type, s.values)

def names (store : UniformStore) : List String := store.slots.map Slot.name

end UniformStore

/-- What a store has under each name. -/
abbrev SlotMap := String → Option (ValueType × List Single)

/-- Floats with others from an offset on, as far as there are both. -/
def overwritten (offset : Nat) (new old : List Single) : List Single :=
  old.mapIdx fun k x ↦ if offset ≤ k then new.getD (k - offset) x else x

namespace StoreOp

def onMap (m : SlotMap) : StoreOp → SlotMap
  | insert name type => Function.update m name (some (type, List.replicate type.floats .zero))
  | without name => Function.update m name none
  | write name offset new =>
    Function.update m name ((m name).map fun e ↦ (e.1, overwritten offset new e.2))

/-- What an operation does to the names in their order. -/
def onNames (names : List String) : StoreOp → List String
  | insert name _ => if name ∈ names then names else names ++ [name]
  | without name => names.erase name
  | write .. => names

end StoreOp

/-- There are as many floats under each name as the type there says. -/
def SlotMap.Sized (m : SlotMap) : Prop := ∀ name e, m name = some e → e.2.length = e.1.floats

namespace SlotMap.Sized

variable {m : SlotMap}

theorem update (h : m.Sized) (name : String) {entry : Option (ValueType × List Single)}
    (hentry : ∀ e, entry = some e → e.2.length = e.1.floats) :
    SlotMap.Sized (Function.update m name entry) := by
  intro other e he
  by_cases ho : other = name
  · rw [ho, Function.update_self] at he
    exact hentry e he
  · rw [Function.update_of_ne ho] at he
    exact h other e he

theorem onMap (h : m.Sized) (op : StoreOp) : SlotMap.Sized (op.onMap m) := by
  cases op with
  | insert name type =>
    refine h.update name fun e he ↦ ?_
    obtain rfl := Option.some.inj he
    exact List.length_replicate
  | without name => exact h.update name nofun
  | write name offset new =>
    refine h.update name fun e he ↦ ?_
    obtain ⟨old, hold, rfl⟩ := Option.map_eq_some_iff.mp he
    exact List.length_mapIdx.trans (h name old hold)

end SlotMap.Sized

namespace Slot

variable {offset k : Nat} {new old : List Single}

theorem getElem?_overwritten (offset k : Nat) (new old : List Single) :
    (overwritten offset new old)[k]? =
      if offset ≤ k ∧ k < min old.length (offset + new.length) then new[k - offset]?
      else old[k]? := by
  rw [overwritten, List.getElem?_mapIdx]
  by_cases hk : k < old.length
  · rw [List.getElem?_eq_getElem hk, Option.map_some]
    grind
  · rw [List.getElem?_eq_none (Nat.not_lt.mp hk)]
    grind

theorem name_write (s : Slot) (offset : Nat) (new : List Single) :
    (s.write offset new).name = s.name := rfl

theorem overwrite_eq_overwritten (offset : Nat) (new old : List Single) :
    overwrite offset new old = overwritten offset new old := by
  refine List.ext_getElem? fun k ↦ ?_
  rw [getElem?_overwritten]
  by_cases hk : k < old.length
  · rw [getElem?_overwrite hk]
    grind
  · have hlength : (overwrite offset new old).length ≤ k := by
      rw [length_overwrite]
      exact Nat.not_lt.mp hk
    rw [List.getElem?_eq_none hlength, if_neg (by omega),
      List.getElem?_eq_none (Nat.not_lt.mp hk)]

end Slot

namespace UniformStore

variable {store : UniformStore} {slots : List Slot} {s : Slot} {name other : String}
  {location : Nat}

theorem map_name_putSlot (s : Slot) (slots : List Slot) : (putSlot s slots).map Slot.name =
    if s.name ∈ slots.map Slot.name then slots.map Slot.name
    else slots.map Slot.name ++ [s.name] := by
  induction slots with
  | nil => rfl
  | cons t rest ih =>
    rw [putSlot]
    by_cases ht : t.name = s.name
    · simp [ht]
    · simp only [if_neg ht, List.map_cons, ih, List.mem_cons, Ne.symm ht, false_or]
      split <;> rfl

theorem find?_putSlot (s : Slot) (slots : List Slot) (name : String) :
    (putSlot s slots).find? (·.name == name) =
      if name = s.name then some s else slots.find? (·.name == name) := by
  induction slots with
  | nil => by_cases h : name = s.name <;> simp [putSlot, h, Ne.symm]
  | cons t rest ih =>
    rw [putSlot]
    by_cases ht : t.name = s.name
    · rw [if_pos ht]
      by_cases h : name = s.name <;> simp [h, ht, Ne.symm]
    · rw [if_neg ht, List.find?_cons, List.find?_cons, ih]
      by_cases h : name = s.name
      · have hname : (t.name == name) = false := beq_eq_false_iff_ne.mpr (h ▸ ht)
        rw [hname, if_pos h]
      · simp [h]

theorem map_name_eraseP (slots : List Slot) (name : String) :
    (slots.eraseP (·.name == name)).map Slot.name = (slots.map Slot.name).erase name := by
  rw [List.erase_eq_eraseP', List.eraseP_map]
  rfl

theorem find?_eraseP (h : (slots.map Slot.name).Nodup) (name other : String) :
    (slots.eraseP (·.name == name)).find? (·.name == other) =
      if other = name then none else slots.find? (·.name == other) := by
  induction slots with
  | nil => simp
  | cons t rest ih =>
    obtain ⟨hnew, hrest⟩ := List.nodup_cons.mp h
    by_cases ht : t.name = name
    · subst ht
      rw [List.eraseP_cons_of_pos (by simp)]
      by_cases ho : other = t.name
      · subst ho
        rw [if_pos rfl, List.find?_eq_none]
        intro u hu heq
        exact hnew (List.mem_map.mpr ⟨u, hu, by simpa using heq⟩)
      · rw [if_neg ho, List.find?_cons_of_neg (by simpa using Ne.symm ho)]
    · rw [List.eraseP_cons_of_neg (by simpa using ht), List.find?_cons, List.find?_cons, ih hrest]
      by_cases ho : other = name
      · have hother : (t.name == other) = false := beq_eq_false_iff_ne.mpr (ho ▸ ht)
        rw [hother, if_pos ho]
      · simp [ho]

theorem map_name_modify {f : Slot → Slot} (hf : ∀ s, (f s).name = s.name) (slots : List Slot)
    (location : Nat) : (slots.modify location f).map Slot.name = slots.map Slot.name := by
  refine List.ext_getElem? fun i ↦ ?_
  rw [List.getElem?_map, List.getElem?_map, List.getElem?_modify]
  cases slots[i]? with
  | none => rfl
  | some s => by_cases h : location = i <;> simp [h, hf]

/-- Where a name is found, the first slot of the name is, and no other slot. -/
theorem find?_modify {f : Slot → Slot} (hf : ∀ s, (f s).name = s.name)
    (h : slots.findIdx? (·.name == name) = some location) (other : String) :
    (slots.modify location f).find? (·.name == other) =
      if other = name then (slots.find? (·.name == other)).map f
      else slots.find? (·.name == other) := by
  induction slots generalizing location with
  | nil => cases h
  | cons t rest ih =>
    rw [List.findIdx?_cons] at h
    by_cases ht : t.name = name
    · simp only [ht, beq_self_eq_true, if_true, Option.some.injEq] at h
      subst h
      by_cases ho : other = name
      · simp [ho, ht, hf]
      · have hother : (t.name == other) = false := beq_eq_false_iff_ne.mpr (ht ▸ Ne.symm ho)
        simp [ho, hother, hf]
    · have hname : (t.name == name) = false := beq_eq_false_iff_ne.mpr ht
      simp only [hname, Bool.false_eq_true, if_false, Option.map_eq_some_iff] at h
      obtain ⟨location, hlocation, rfl⟩ := h
      rw [List.modify_succ_cons, List.find?_cons, List.find?_cons, ih hlocation]
      by_cases ho : other = name
      · simp [ho, hname]
      · simp [ho]

/-! ## Stores as maps -/

/-- A write to the place where a name is found is a write to the name. -/
theorem stored?_write (h : store.resolve name = some location) (offset : Nat) (new : List Single) :
    (store.write location offset new).stored? =
      (StoreOp.write name offset new).onMap store.stored? := by
  funext other
  have hfind := find?_modify (fun s ↦ s.name_write offset new) h other
  by_cases ho : other = name
  · subst ho
    rw [if_pos rfl] at hfind
    simp only [StoreOp.onMap, Function.update_self, stored?, write, hfind, Option.map_map]
    refine congrArg (Option.map · _) (funext fun s ↦ ?_)
    simp [Slot.write, Slot.overwrite_eq_overwritten]
  · rw [if_neg ho] at hfind
    simp only [StoreOp.onMap, Function.update_of_ne ho, stored?, write, hfind]

theorem stored?_eq_none (h : store.resolve name = none) : store.stored? name = none := by
  rw [stored?, Option.map_eq_none_iff, List.find?_eq_none]
  intro s hs
  simpa using List.findIdx?_eq_none_iff.mp h s hs

theorem stored?_apply (h : store.names.Nodup) (op : StoreOp) :
    (op.apply store).stored? = op.onMap store.stored? := by
  cases op with
  | insert name type =>
    funext other
    by_cases ho : other = name
    · simp [StoreOp.apply, insert, StoreOp.onMap, stored?, find?_putSlot, Slot.zeros, ho,
        ValueType.floats]
    · simp [StoreOp.apply, insert, StoreOp.onMap, stored?, find?_putSlot, Slot.zeros, ho]
  | without name =>
    funext other
    have hfind := find?_eraseP h name other
    by_cases ho : other = name
    · subst ho
      rw [if_pos rfl] at hfind
      simp only [StoreOp.apply, without, StoreOp.onMap, stored?, hfind, Function.update_self,
        Option.map_none]
    · simp [StoreOp.apply, without, StoreOp.onMap, stored?, hfind, ho]
  | write name offset new =>
    rw [StoreOp.apply]
    split
    · next location hlocation => exact stored?_write hlocation offset new
    · next hnone =>
      funext other
      by_cases ho : other = name
      · simp [StoreOp.onMap, ho, stored?_eq_none hnone]
      · simp [StoreOp.onMap, Function.update_of_ne ho]

theorem names_apply (store : UniformStore) (op : StoreOp) :
    (op.apply store).names = op.onNames store.names := by
  cases op with
  | insert name type => exact map_name_putSlot _ _
  | without name => exact map_name_eraseP _ _
  | write name offset new =>
    rw [StoreOp.apply]
    split
    · exact map_name_modify (fun s ↦ s.name_write offset new) _ _
    · rfl

theorem nodup_onNames {names : List String} (h : names.Nodup) (op : StoreOp) :
    (op.onNames names).Nodup := by
  cases op with
  | insert name type =>
    rw [StoreOp.onNames]
    split
    · exact h
    · next hnew => exact List.nodup_append.mpr ⟨h, by simp, by grind⟩
  | without name => exact h.erase name
  | write name offset new => exact h

theorem after_concat (ops : List StoreOp) (op : StoreOp) :
    after (ops ++ [op]) = op.apply (after ops) := by
  simp [after]

theorem nodup_names_after (ops : List StoreOp) : (after ops).names.Nodup := by
  induction ops using List.reverseRecOn with
  | nil => exact List.nodup_nil
  | append_singleton ops op ih =>
    rw [after_concat, names_apply]
    exact nodup_onNames ih op

theorem names_after (ops : List StoreOp) : (after ops).names = ops.foldl StoreOp.onNames [] := by
  induction ops using List.reverseRecOn with
  | nil => rfl
  | append_singleton ops op ih => rw [after_concat, names_apply, ih, List.foldl_concat]

theorem stored?_after (ops : List StoreOp) :
    (after ops).stored? = ops.foldl StoreOp.onMap fun _ ↦ none := by
  induction ops using List.reverseRecOn with
  | nil => rfl
  | append_singleton ops op ih =>
    rw [after_concat, stored?_apply (nodup_names_after ops), ih, List.foldl_concat]

theorem sized_after (ops : List StoreOp) : SlotMap.Sized (after ops).stored? := by
  induction ops using List.reverseRecOn with
  | nil => exact fun name e he ↦ by cases he
  | append_singleton ops op ih =>
    rw [after_concat, stored?_apply (nodup_names_after ops)]
    exact ih.onMap op

theorem stored?_of_mem (h : store.names.Nodup) (hs : s ∈ store.slots) :
    store.stored? s.name = some (s.type, s.values) := by
  have hfound : (store.slots.find? (·.name == s.name)).isSome = true :=
    List.find?_isSome.mpr ⟨s, hs, by simp⟩
  obtain ⟨t, ht⟩ := Option.isSome_iff_exists.mp hfound
  have hname : t.name = s.name := by simpa using List.find?_some ht
  have heq : t = s := List.inj_on_of_nodup_map h (List.mem_of_find?_eq_some ht) hs hname
  rw [stored?, ht, heq, Option.map_some]

/-- A name is found at its place in the order. -/
theorem resolve_eq (store : UniformStore) (name : String) :
    store.resolve name = store.names.idxOf? name := by
  rw [names, List.idxOf?, List.findIdx?_map]
  rfl

theorem exists_stored? (h : store.resolve name = some location) :
    ∃ type old, store.stored? name = some (type, old) := by
  obtain ⟨hlt, hname, -⟩ := List.findIdx?_eq_some_iff_getElem.mp h
  have hfound : (store.slots.find? (·.name == name)).isSome = true :=
    List.find?_isSome.mpr ⟨store.slots[location], List.getElem_mem hlt, hname⟩
  obtain ⟨t, ht⟩ := Option.isSome_iff_exists.mp hfound
  exact ⟨t.type, t.values, by rw [stored?, ht, Option.map_some]⟩

end UniformStore

/-- The entries of a four by four matrix, by column and row. -/
abbrev Columns := Fin 4 → Fin 4 → Single

namespace Columns

/-- The entries, column after column. -/
def floats (m : Columns) : List Single := (List.finRange 4).flatMap fun c ↦ List.ofFn (m c)

/-- The matrix that some floats list column after column. -/
def ofFloats (values : List Single) : Columns := fun c r ↦ values.getD (4 * c + r) .zero

theorem length_floats (m : Columns) : m.floats.length = 16 := rfl

@[simp] theorem ofFloats_floats (m : Columns) : ofFloats m.floats = m := by
  funext c r
  fin_cases c <;> fin_cases r <;> rfl

end Columns

namespace UniformStore

variable {store : UniformStore} {name : String} {location : Nat}

theorem get?_eq (store : UniformStore) (name : String) :
    store.get? name = (store.stored? name).map Prod.snd := by
  rw [get?, stored?, Option.map_map]
  rfl

/-- What is written within a list is read back from there. -/
theorem stretch?_overwritten {start : Nat} {new old : List Single}
    (h : start + new.length ≤ old.length) :
    stretch? start new.length (overwritten start new old) = some new := by
  have hlength : (overwritten start new old).length = old.length := List.length_mapIdx
  rw [stretch?, if_pos (hlength ▸ h), Option.some.injEq]
  refine List.ext_getElem? fun k ↦ ?_
  rw [List.getElem?_take, List.getElem?_drop, Slot.getElem?_overwritten]
  by_cases hk : k < new.length
  · rw [if_pos hk, if_pos (by omega), Nat.add_sub_cancel_left]
  · rw [if_neg hk, List.getElem?_eq_none (Nat.not_lt.mp hk)]

/-! ## Independence -/

/-- What a store keeps to: the sizes of its slots, what is written where a name is found, what is
written past the end, and matrices that are written and read. -/
structure Independent (store : UniformStore) : Prop where
  size : ∀ s ∈ store.slots, s.values.length = s.type.elementFloats * s.type.elements
  write_resolved : ∀ name location offset new, store.resolve name = some location →
    ∃ type old changed, store.stored? name = some (type, old) ∧
      (store.write location offset new).stored? name = some (type, changed) ∧
      (∀ k, changed[k]? =
        if offset ≤ k ∧ k < min old.length (offset + new.length) then new[k - offset]?
        else old[k]?) ∧
      ∀ other, other ≠ name →
        (store.write location offset new).stored? other = store.stored? other
  write_past_end : ∀ location offset new, store.slots.length ≤ location →
    store.write location offset new = store
  matrix4?_write : ∀ name location i (m : Columns) type old, store.resolve name = some location →
    store.stored? name = some (type, old) → 16 * i + 16 ≤ old.length →
    ((store.write location (16 * i) m.floats).matrix4? name i).map Columns.ofFloats = some m

theorem write_of_length_le (h : store.slots.length ≤ location) (offset : Nat)
    (new : List Single) : store.write location offset new = store := by
  rw [write, List.modify_eq_self h]

theorem matrix4?_write (h : store.resolve name = some location) {type : ValueType}
    {old : List Single} (hentry : store.stored? name = some (type, old)) {i : Nat}
    (hroom : 16 * i + 16 ≤ old.length) (m : Columns) :
    (store.write location (16 * i) m.floats).matrix4? name i = some m.floats := by
  have hwritten : (store.write location (16 * i) m.floats).stored? name =
      some (type, overwritten (16 * i) m.floats old) := by
    rw [stored?_write h, StoreOp.onMap, Function.update_self, hentry, Option.map_some]
  rw [matrix4?, get?_eq, hwritten, Option.map_some, Option.bind_some, Nat.mul_comm i 16]
  have hlength : 16 * i + m.floats.length ≤ old.length := by rwa [m.length_floats]
  exact stretch?_overwritten hlength

theorem independent_after (ops : List StoreOp) : (after ops).Independent where
  size s hs := sized_after ops s.name _ (stored?_of_mem (nodup_names_after ops) hs)
  write_resolved name location offset new h := by
    obtain ⟨type, old, hentry⟩ := exists_stored? h
    refine ⟨type, old, overwritten offset new old, hentry, ?_,
      (Slot.getElem?_overwritten offset · new old), fun other hother ↦ ?_⟩
    · rw [stored?_write h, StoreOp.onMap, Function.update_self, hentry, Option.map_some]
    · rw [stored?_write h, StoreOp.onMap, Function.update_of_ne hother]
  write_past_end location offset new h := write_of_length_le h offset new
  matrix4?_write name location i m type old h hentry hroom := by
    rw [matrix4?_write h hentry hroom, Option.map_some, Columns.ofFloats_floats]

/-- After every sequence of operations a store is the map that the operations make of the empty
one, and finds each name at its place in their order. What is written where a name is found
changes the floats of this name that it reaches, and nothing else. -/
theorem slots_independent (ops : List StoreOp) :
    (after ops).stored? = ops.foldl StoreOp.onMap (fun _ ↦ none) ∧
    (∀ name, (after ops).resolve name = (ops.foldl StoreOp.onNames []).idxOf? name) ∧
    (after ops).Independent := by
  refine ⟨stored?_after ops, fun name ↦ ?_, independent_after ops⟩
  rw [resolve_eq, names_after]

example : (after [.insert "fog" (.float .one), .insert "tint" (.float .four), .without "fog",
    .write "tint" 2 [.one, .one, .one]]).float4? "tint" = some [.zero, .zero, .one, .one] := by
  decide +kernel

end UniformStore

end ShaderGraph
