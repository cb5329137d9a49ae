import ShaderGraph.Proofs.Draft.Rejecting
import ShaderGraph.Proofs.Draft.Tables
import ShaderGraph.Proofs.Script.History

/-!
# Tables along a history

What the tables have when a turn ends, they have when a later one begins,
unless the turn is inside of the later one. The invariant holds where a turn
begins. Functions are kept in the order in which the turns that define them
end, and of several main functions the last.
-/

namespace ShaderGraph

open Scripted

namespace Tables

/-- The tables of the program, which its stages share. -/
def shared (t : Tables) : Tables :=
  { t with attributes := [], outputs := [], builtins := [], functions := [], main := none }

theorem Keeps.shared {t t' : Tables} (h : t.Keeps t') : t.shared.Keeps t'.shared :=
  { h with
    attributes := List.prefix_refl _
    outputs := List.prefix_refl _
    builtins := List.prefix_refl _
    functions := List.prefix_refl _
    main := fun _ h ↦ h }

/-- Tables have all that other tables have of the program. -/
def KeepsShared (t t' : Tables) : Prop := t.shared.Keeps t'.shared

instance : Trans KeepsShared KeepsShared KeepsShared := ⟨Keeps.trans⟩

/-- How tables go on along the turns of a stage. A main function may be replaced, but there stays
one. -/
structure Onward (t t' : Tables) : Prop where
  keeps : t.KeepsShared t'
  attributes : t.attributes <+: t'.attributes
  main : t.main.isSome = true → t'.main.isSome = true

variable {t t₁ t₂ : Tables}

theorem Onward.trans (h : t.Onward t₁) (h' : t₁.Onward t₂) : t.Onward t₂ :=
  ⟨h.keeps.trans h'.keeps, h.attributes.trans h'.attributes, fun hmain ↦ h'.main (h.main hmain)⟩

instance : Trans Onward Onward Onward := ⟨Onward.trans⟩

theorem Keeps.onward (h : t.Keeps t₁) : t.Onward t₁ := by
  refine ⟨h.shared, h.attributes, fun hmain ↦ ?_⟩
  obtain ⟨f, hf⟩ := Option.isSome_iff_exists.mp hmain
  exact Option.isSome_iff_exists.mpr ⟨f, h.main f hf⟩

end Tables

/-- Along turns that lead from tables to others, each turn begins with what an earlier one has
ended with, or the earlier one is inside of it. -/
structure Chronicle (rel : Tables → Tables → Prop) (t : Tables) (turns : List Turn) (t' : Tables) :
    Prop where
  onward : rel t t'
  begins : ∀ y ∈ turns, rel t y.before.tables
  ends : ∀ y ∈ turns, rel y.after.tables t'
  order : turns.Pairwise fun x y ↦ x ∈ y.inside ∨ rel x.after.tables y.before.tables
  closed : ∀ y ∈ turns, (y.inside ++ [y]).Sublist turns
  sound : ∀ y ∈ turns, Sound y.before y.ledger

namespace Chronicle

variable {rel rel' : Tables → Tables → Prop} {t t₁ t₂ : Tables} {xs ys : List Turn} {y : Turn}

theorem mono (h : Chronicle rel t xs t₁) (hrel : ∀ {a b}, rel a b → rel' a b) :
    Chronicle rel' t xs t₁ where
  onward := hrel h.onward
  begins y hy := hrel (h.begins y hy)
  ends y hy := hrel (h.ends y hy)
  order := h.order.imp fun hxy ↦ hxy.imp_right hrel
  closed := h.closed
  sound := h.sound

theorem nil (h : rel t t₁) : Chronicle rel t [] t₁ :=
  ⟨h, by simp, by simp, .nil, by simp, by simp⟩

variable [Trans rel rel rel]

theorem append (h : Chronicle rel t xs t₁) (h' : Chronicle rel t₁ ys t₂) :
    Chronicle rel t (xs ++ ys) t₂ where
  onward := Trans.trans h.onward h'.onward
  begins := by
    rw [List.forall_mem_append]
    exact ⟨h.begins, fun y hy ↦ Trans.trans h.onward (h'.begins y hy)⟩
  ends := by
    rw [List.forall_mem_append]
    exact ⟨fun x hx ↦ Trans.trans (h.ends x hx) h'.onward, h'.ends⟩
  order := List.pairwise_append.mpr ⟨h.order, h'.order, fun x hx y hy ↦
    .inr (Trans.trans (h.ends x hx) (h'.begins y hy))⟩
  closed := by
    rw [List.forall_mem_append]
    exact ⟨fun x hx ↦ (h.closed x hx).trans (List.sublist_append_left _ _),
      fun y hy ↦ (h'.closed y hy).trans (List.sublist_append_right _ _)⟩
  sound := List.forall_mem_append.mpr ⟨h.sound, h'.sound⟩

/-- The turns inside of a turn come before it. -/
theorem turn (hrefl : ∀ t, rel t t) (hsound : Sound y.before y.ledger)
    (h : Chronicle rel y.before.tables y.inside t) (hafter : rel t y.after.tables) :
    Chronicle rel y.before.tables (y.inside ++ [y]) y.after.tables where
  onward := Trans.trans h.onward hafter
  begins := by
    rw [List.forall_mem_append]
    exact ⟨h.begins, by simpa using hrefl _⟩
  ends := by
    rw [List.forall_mem_append]
    exact ⟨fun x hx ↦ Trans.trans (h.ends x hx) hafter, by simpa using hrefl _⟩
  order := List.pairwise_append.mpr ⟨h.order, List.pairwise_singleton _ _, fun x hx z hz ↦
    .inl (List.mem_singleton.mp hz ▸ hx)⟩
  closed := by
    rw [List.forall_mem_append]
    exact ⟨fun x hx ↦ (h.closed x hx).trans (List.sublist_append_left _ _), by simp⟩
  sound := List.forall_mem_append.mpr ⟨h.sound, by simpa using hsound⟩

end Chronicle

/-- The turns of a stage lead from tables to others. All functions that they have defined are in
the tables, and so is the last main function. -/
structure Passes (t : Tables) (turns : List Turn) (t' : Tables) : Prop
    extends Chronicle Tables.Onward t turns t' where
  functions : (t.functions ++ turns.filterMap Turn.function?).Sublist t'.functions
  main : ∀ f ∈ (turns.filterMap Turn.main?).getLast?.or t.main, f ∈ t'.main

namespace Passes

variable {t t₁ t₂ : Tables} {xs ys : List Turn} {y : Turn}

theorem nil (h : t.Keeps t₁) : Passes t [] t₁ :=
  ⟨.nil h.onward, by simpa using h.functions.sublist, by simpa using h.main⟩

theorem append (h : Passes t xs t₁) (h' : Passes t₁ ys t₂) : Passes t (xs ++ ys) t₂ where
  toChronicle := h.toChronicle.append h'.toChronicle
  functions := by
    rw [List.filterMap_append, ← List.append_assoc]
    exact (h.functions.append_right _).trans h'.functions
  main f hf := by
    rw [List.filterMap_append, List.getLast?_append, Option.or_assoc] at hf
    refine h'.main f ?_
    cases hlast : (ys.filterMap Turn.main?).getLast? with
    | some g => simpa [hlast] using hf
    | none =>
      rw [hlast, Option.none_or] at hf
      simpa using h.main f hf

/-- The turns inside of a turn come before it, and then the turn does what it is for. -/
theorem turn (hsound : Sound y.before y.ledger) (h : Passes y.before.tables y.inside t)
    (hafter : t.Onward y.after.tables)
    (hfunctions : (t.functions ++ y.function?.toList).Sublist y.after.tables.functions)
    (hmain : ∀ f ∈ y.main?.or t.main, f ∈ y.after.tables.main) :
    Passes y.before.tables (y.inside ++ [y]) y.after.tables where
  toChronicle := h.toChronicle.turn (fun t ↦ (Tables.Keeps.refl t).onward) hsound hafter
  functions := by
    rw [List.filterMap_append, ← List.append_assoc]
    refine (h.functions.append_right _).trans ?_
    cases hy : y.function? <;> simpa [List.filterMap_cons, hy] using hfunctions
  main f hf := by
    cases hy : y.main? with
    | some g => exact hmain f (by simpa [List.filterMap_append, List.filterMap_cons, hy] using hf)
    | none =>
      have hold : f ∈ t.main :=
        h.main f (by simpa [List.filterMap_append, List.filterMap_cons, hy] using hf)
      exact hmain f (by simpa [hy] using hold)

/-- A turn that defines no function. -/
theorem turn_of_none (hsound : Sound y.before y.ledger)
    (h : Passes y.before.tables y.inside y.after.tables) (hfunction : y.function? = none)
    (hmain : y.main? = none) : Passes y.before.tables (y.inside ++ [y]) y.after.tables :=
  h.turn hsound (Tables.Keeps.refl _).onward (by simp [hfunction]) (by simp [hmain])

end Passes

/-! ## Along constructions -/

namespace Passes

variable {S α β : Type} [Drafted S] {s : S} {l : Ledger} {t : Tables} {xs : List Turn}

theorem bind {act : Scripted S α} {f : α → Scripted S β} {turns : α → S → Ledger → List Turn}
    (hact : Passes t xs (draft (act.final s l).1).tables)
    (hf : ∀ a s' l', act (s, l) = .ok a (s', l') →
      Passes (draft s').tables (turns a s' l') (draft ((f a).final s' l').1).tables) :
    Passes t (xs ++ follow act s l turns) (draft ((act >>= f).final s l).1).tables := by
  unfold follow
  rcases h : act (s, l) with ⟨a, s', l'⟩ | ⟨e, s', l'⟩
  · rw [Build.final_ok h] at hact
    rw [Build.final_bind_ok h]
    exact hact.append (hf a s' l' h)
  · rw [Build.final_error h] at hact
    rw [Build.final_error (Build.bind_error h), List.append_nil]
    exact hact

/-- A construction that comes before all turns. -/
theorem keeps_bind {act : Scripted S α} {f : α → Scripted S β}
    (turns : α → S → Ledger → List Turn) (hact : t.Keeps (draft (act.final s l).1).tables)
    (hf : ∀ a s' l', act (s, l) = .ok a (s', l') →
      Passes (draft s').tables (turns a s' l') (draft ((f a).final s' l').1).tables) :
    Passes t (follow act s l turns) (draft ((act >>= f).final s l).1).tables := by
  simpa using (nil hact).bind hf

theorem looks_bind {act : Scripted S α} {f : α → Scripted S β} {turns : α → S → Ledger → List Turn}
    (hact : act.Looks)
    (hf : ∀ a, act (s, l) = .ok a (s, l) →
      Passes (draft s).tables (turns a s l) (draft ((f a).final s l).1).tables) :
    Passes (draft s).tables (follow act s l turns) (draft ((act >>= f).final s l).1).tables := by
  rcases hact (s, l) with ⟨a, h⟩ | ⟨e, h⟩
  · refine keeps_bind turns (by rw [Build.final_ok h]) fun b s' l' h' ↦ ?_
    cases h.symm.trans h'
    exact hf a h
  · refine keeps_bind turns (by rw [Build.final_error h]) fun b s' l' h' ↦ ?_
    cases h.symm.trans h'

/-- The first step of a list, and then the rest of it. -/
theorem logged_bind {act : Scripted S Answer} {rest : Scripted S Unit}
    (turns : S → Ledger → List Turn) (hact : Passes t xs (draft (act.final s l).1).tables)
    (hrest : ∀ a s' l', act (s, l) = .ok a (s', l') →
      Passes (draft s').tables (turns s' (l'.log a)) (draft (rest.final s' (l'.log a)).1).tables) :
    Passes t (xs ++ follow act s l fun a s l ↦ turns s (l.log a))
      (draft (Build.final (do logged act; rest) s l).1).tables := by
  unfold follow
  rcases h : act (s, l) with ⟨a, s', l'⟩ | ⟨e, s', l'⟩
  · rw [Build.final_ok h] at hact
    rw [final_logged_bind h]
    exact hact.append (hrest a s' l' h)
  · rw [Build.final_error h] at hact
    rw [final_logged_bind_error h, List.append_nil]
    exact hact

end Passes

end ShaderGraph
