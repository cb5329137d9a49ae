import ShaderGraph.Proofs.Draft.Preservation

/-!
# Following constructions

A construction follows the operations of drafts if, whether it succeeds or is
rejected, its draft has evolved and its client knows no more than it was given.
The rules here go along the ways constructions are put together; the operations
themselves are followed one by one after them.
-/

namespace ShaderGraph

/-- A part of a program under construction, as a draft. -/
class Drafted (S : Type) where
  draft : S → Draft

export Drafted (draft)

instance : Drafted Program := ⟨.program⟩
instance : Drafted Resources := ⟨.resources⟩
instance : Drafted StageDraft := ⟨.stage⟩
instance : Drafted ScopeDraft := ⟨.scope⟩
instance : Drafted BlockDraft := ⟨.block⟩

/-- When the state of a client has nothing in it but what it was given. -/
structure Client (σ : Type) where
  Knows : Registry → σ → Prop
  mono : ∀ {R R' c}, R ≤ R' → Knows R c → Knows R' c

/-- A result is what came out of operations on a draft; if it is a success, it is as expected. -/
def Follows {σ S α : Type} [Drafted S] (C : Client σ) (R : Registry) (d : Draft)
    (Q : Registry → S → α → Prop) : EStateM.Result BuildError (S × σ) α → Prop
  | .ok a (s, c) => ∃ R', Evolves R d R' (draft s) ∧ C.Knows R' c ∧ Q R' s a
  | .error _ (s, c) => ∃ R', Evolves R d R' (draft s) ∧ C.Knows R' c

/-- From a registry on, a construction follows the operations of drafts, wherever the invariant
holds. -/
def Traced {σ S α : Type} [Drafted S] (C : Client σ) (R : Registry) (act : Build σ S α)
    (Q : Registry → α → Prop) : Prop :=
  ∀ R₁, R ≤ R₁ → ∀ s c, (draft s).Invariant R₁ → C.Knows R₁ c →
    Follows C R₁ (draft s) (fun R' _ a ↦ Q R' a) (act (s, c))

/-- A construction on a part of the draft changes nothing else. -/
theorem Build.on_apply {σ S T α : Type} (part : S → T) (set : S → T → S) (act : Build σ T α)
    (s : S) (c : σ) : Build.on part set act (s, c) =
      match act (part s, c) with
      | .ok a (t, c') => .ok a (set s t, c')
      | .error e (t, c') => .error e (set s t, c') := by
  change EStateM.map Prod.fst (Build.via part set act) (s, c) = _
  simp only [EStateM.map, Build.via]
  rcases act (part s, c) with ⟨a, t, c'⟩ | ⟨e, t, c'⟩ <;> rfl

theorem Build.via_eq_error {σ S T α : Type} {into : S → T} {back : S → T → S} {act : Build σ T α}
    {s s' : S} {c c' : σ} {e : BuildError} :
    via into back act (s, c) = .error e (s', c') ↔
      ∃ t, act (into s, c) = .error e (t, c') ∧ s' = back s t := by
  rcases h : act (into s, c) with ⟨a', t', c''⟩ | ⟨e', t', c''⟩
  · simp [via, h]
  · simp only [via, h, EStateM.Result.error.injEq, Prod.mk.injEq]
    grind

section Steps

variable {σ S α β : Type}

theorem Build.bind_ok {x : Build σ S α} {f : α → Build σ S β} {st st' : S × σ} {a : α}
    (h : x st = .ok a st') : (x >>= f) st = f a st' := by
  change EStateM.bind x f st = _
  simp [EStateM.bind, h]

theorem Build.bind_error {x : Build σ S α} {f : α → Build σ S β} {st st' : S × σ}
    {e : BuildError} (h : x st = .error e st') : (x >>= f) st = .error e st' := by
  change EStateM.bind x f st = _
  simp [EStateM.bind, h]

theorem Build.ofExcept_bind_ok {r : Except BuildError α} {f : α → Build σ S β} {st : S × σ} {a : α}
    (h : r = .ok a) : (Build.ofExcept r >>= f) st = f a st := by
  subst h
  rfl

theorem Build.ofExcept_bind_error {r : Except BuildError α} {f : α → Build σ S β} {st : S × σ}
    {e : BuildError} (h : r = .error e) : (Build.ofExcept r >>= f) st = .error e st := by
  subst h
  rfl

theorem Build.draft_bind (f : S → Build σ S β) (s : S) (c : σ) :
    (Build.draft >>= f) (s, c) = f s (s, c) := rfl

end Steps

section Rules

variable {σ S T α β : Type} [Drafted S] [Drafted T] {C : Client σ} {R R₁ : Registry} {d : Draft}
  {s : S} {c : σ}

namespace Follows

variable {Q : Registry → S → β → Prop}

theorem ok {a : β} (h : Evolves R d R₁ (draft s)) (hc : C.Knows R₁ c) (ha : Q R₁ s a) :
    Follows C R d Q (.ok a (s, c)) :=
  ⟨R₁, h, hc, ha⟩

theorem error {e : BuildError} (h : Evolves R d R₁ (draft s)) (hc : C.Knows R₁ c) :
    Follows C R d Q (.error e (s, c)) :=
  ⟨R₁, h, hc⟩

theorem bind {x : Build σ S α} {f : α → Build σ S β} {P : Registry → S → α → Prop}
    (hx : Follows C R d P (x (s, c)))
    (hf : ∀ R' a s' c', Evolves R d R' (draft s') → C.Knows R' c' → P R' s' a →
      Follows C R d Q (f a (s', c'))) : Follows C R d Q ((x >>= f) (s, c)) := by
  change Follows C R d Q (EStateM.bind x f (s, c))
  unfold EStateM.bind
  rcases h : x (s, c) with ⟨a, s', c'⟩ | ⟨e, s', c'⟩
  · rw [h] at hx
    obtain ⟨R', hev, hc', ha⟩ := hx
    exact hf R' a s' c' hev hc' ha
  · rw [h] at hx
    exact hx

theorem ofExcept_bind {r : Except BuildError α} {f : α → Build σ S β}
    (h : Evolves R d R₁ (draft s)) (hc : C.Knows R₁ c)
    (hf : ∀ a, r = .ok a → Follows C R d Q (f a (s, c))) :
    Follows C R d Q ((Build.ofExcept r >>= f) (s, c)) := by
  cases hr : r with
  | error e => exact ⟨R₁, h, hc⟩
  | ok a => exact hf a hr

theorem via_bind {into : S → T} {back : S → T → S} {x : Build σ T α} {f : α × T → Build σ S β}
    {R₀ : Registry} {d₀ : Draft} {P : Registry → T → α → Prop}
    (hx : Follows C R₀ d₀ P (x (into s, c)))
    (hf : ∀ R' a t c', Evolves R₀ d₀ R' (draft t) → C.Knows R' c' → P R' t a →
      Follows C R d Q (f (a, t) (back s t, c')))
    (he : ∀ R' t, Evolves R₀ d₀ R' (draft t) → Evolves R d R' (draft (back s t))) :
    Follows C R d Q ((Build.via into back x >>= f) (s, c)) := by
  rcases h : x (into s, c) with ⟨a, t, c'⟩ | ⟨e, t, c'⟩ <;> rw [h] at hx
  · obtain ⟨R', hev, hc', ha⟩ := hx
    rw [Build.bind_ok (Build.via_eq_ok.mpr ⟨h, rfl⟩)]
    exact hf R' a t c' hev hc' ha
  · obtain ⟨R', hev, hc'⟩ := hx
    rw [Build.bind_error (Build.via_eq_error.mpr ⟨t, h, rfl⟩)]
    exact .error (he R' t hev) hc'

theorem after {r : EStateM.Result BuildError (S × σ) β} {d₁ : Draft} (h : Evolves R d R₁ d₁)
    (hr : Follows C R₁ d₁ Q r) : Follows C R d Q r := by
  rcases r with ⟨a, s', c'⟩ | ⟨e, s', c'⟩
  · obtain ⟨R', hev, hrest⟩ := hr
    exact ⟨R', h.trans hev, hrest⟩
  · obtain ⟨R', hev, hc'⟩ := hr
    exact ⟨R', h.trans hev, hc'⟩

theorem mono {Q' : Registry → S → β → Prop} {r : EStateM.Result BuildError (S × σ) β}
    (hr : Follows C R d Q r) (hQ : ∀ R' s' a, Q R' s' a → Q' R' s' a) : Follows C R d Q' r := by
  rcases r with ⟨a, s', c'⟩ | ⟨e, s', c'⟩
  · obtain ⟨R', hev, hc', ha⟩ := hr
    exact ⟨R', hev, hc', hQ R' s' a ha⟩
  · exact hr

end Follows

namespace Traced

variable {Q : Registry → β → Prop}

theorem weaken {act : Build σ S β} (h : Traced C R act Q) (hR : R ≤ R₁) : Traced C R₁ act Q :=
  fun R₂ hR₂ ↦ h R₂ (hR.trans hR₂)

theorem mono {act : Build σ S β} {Q' : Registry → β → Prop} (h : Traced C R act Q)
    (hQ : ∀ R' a, R ≤ R' → Q R' a → Q' R' a) : Traced C R act Q' := by
  intro R₁ hR s c hs hc
  have hact := h R₁ hR s c hs hc
  rcases hres : act (s, c) with ⟨a, s', c'⟩ | ⟨e, s', c'⟩ <;> rw [hres] at hact
  · obtain ⟨R', hev, hc', ha⟩ := hact
    exact ⟨R', hev, hc', hQ R' a (hR.trans hev.extends.1) ha⟩
  · exact hact

theorem pure {a : β} (ha : ∀ R', R ≤ R' → Q R' a) : Traced C R (pure a : Build σ S β) Q :=
  fun R₁ hR _ _ _ hc ↦ ⟨R₁, .refl _ _, hc, ha R₁ hR⟩

theorem bind {x : Build σ S α} {f : α → Build σ S β} {P : Registry → α → Prop}
    (hx : Traced C R x P) (hf : ∀ R₁ a, R ≤ R₁ → P R₁ a → Traced C R₁ (f a) Q) :
    Traced C R (x >>= f) Q := by
  intro R₁ hR s c hs hc
  refine (hx R₁ hR s c hs hc).bind fun R' a s' c' hev hc' ha ↦ ?_
  exact .after hev (hf R' a (hR.trans hev.extends.1) ha R' le_rfl s' c' (hev.invariant hs) hc')

theorem throw {e : BuildError} : Traced C R (throw e : Build σ S β) Q :=
  fun R₁ _ _ _ _ hc ↦ ⟨R₁, .refl _ _, hc⟩

theorem ofExcept {r : Except BuildError β} (hr : ∀ R' a, R ≤ R' → r = .ok a → Q R' a) :
    Traced C R (Build.ofExcept r : Build σ S β) Q := by
  intro R₁ hR s c hs hc
  cases h : r with
  | error e => exact ⟨R₁, .refl _ _, hc⟩
  | ok a => exact ⟨R₁, .refl _ _, hc, hr R₁ a hR h⟩

theorem getDraft : Traced C R (Build.draft : Build σ S S) (fun _ _ ↦ True) :=
  fun R₁ _ _ _ _ hc ↦ ⟨R₁, .refl _ _, hc, trivial⟩

theorem client {f : σ → β × σ}
    (hf : ∀ R' c, R ≤ R' → C.Knows R' c → Q R' (f c).1 ∧ C.Knows R' (f c).2) :
    Traced C R (Build.client f : Build σ S β) Q :=
  fun R₁ hR _ c _ hc ↦ ⟨R₁, .refl _ _, (hf R₁ c hR hc).2, (hf R₁ c hR hc).1⟩

theorem outcome {act : Build σ S β} (h : Traced C R act Q) :
    Traced C R act.outcome (fun R' r ↦ ∀ a, r = .ok a → Q R' a) := by
  intro R₁ hR s c hs hc
  have hact := h R₁ hR s c hs hc
  unfold Build.outcome
  rcases hres : act (s, c) with ⟨a, s', c'⟩ | ⟨e, s', c'⟩ <;> rw [hres] at hact
  · obtain ⟨R', hev, hc', ha⟩ := hact
    exact ⟨R', hev, hc', fun b hb ↦ Except.ok.inj hb ▸ ha⟩
  · obtain ⟨R', hev, hc'⟩ := hact
    exact ⟨R', hev, hc', fun b hb ↦ by cases hb⟩

/-- A construction on a part of the draft, if the draft evolves with the part. -/
theorem on {part : S → T} {set : S → T → S} {act : Build σ T β}
    (lift : ∀ R R' s t, Evolves R (draft (part s)) R' (draft t) →
      Evolves R (draft s) R' (draft (set s t)))
    (hpart : ∀ R s, (draft s).Invariant R → (draft (part s)).Invariant R) (h : Traced C R act Q) :
    Traced C R (Build.on part set act) Q := by
  intro R₁ hR s c hs hc
  have hact := h R₁ hR (part s) c (hpart R₁ s hs) hc
  rw [Build.on_apply]
  rcases hres : act (part s, c) with ⟨a, t, c'⟩ | ⟨e, t, c'⟩ <;> rw [hres] at hact
  · obtain ⟨R', hev, hc', ha⟩ := hact
    exact ⟨R', lift R₁ R' s t hev, hc', ha⟩
  · obtain ⟨R', hev, hc'⟩ := hact
    exact ⟨R', lift R₁ R' s t hev, hc'⟩

theorem onResources {act : Build σ Resources β} (h : Traced C R act Q) :
    Traced C R (Build.onResources act) Q :=
  .on (fun _ _ _ _ ↦ .stageResources) (fun _ _ hs ↦ hs.fits) h

theorem onStage {act : Build σ StageDraft β} (h : Traced C R act Q) :
    Traced C R (Build.onStage act) Q :=
  .on (fun _ _ _ _ ↦ .scopeStage) (fun _ _ hs ↦ hs.stage) h

theorem onScope {act : Build σ ScopeDraft β} (h : Traced C R act Q) :
    Traced C R (Build.onScope act) Q :=
  .on (fun _ _ _ _ ↦ .blockScope) (fun _ _ hs ↦ hs.scope) h

theorem onShared {act : Build σ Resources β} (h : Traced C R act Q) :
    Traced C R (Build.onShared act) Q :=
  h.onResources.onStage

theorem onProgram {act : Build σ Resources β} (h : Traced C R act Q) :
    Traced C R (Build.on Program.resources (fun p r ↦ { p with resources := r }) act) Q :=
  .on (fun _ _ _ _ ↦ .programResources) (fun _ _ hs ↦ hs.fits) h

end Traced

end Rules

end ShaderGraph
