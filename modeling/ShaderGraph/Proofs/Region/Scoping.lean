import ShaderGraph.Proofs.Region.Effects

/-!
# Well-scoped statements

Statements are well scoped in a chain of scopes, innermost first, if each of
them uses only variables within reach of the place where it stands, if regions
declare variables of their own scope, and if the numbers of nested regions are
new. A variable that a nested region declares then never gets out of it by a
write, and by a read only through a value wired to a block.
-/

namespace ShaderGraph

/-- A variable is declared by the program, by a stage, or in one of the given scopes. -/
def Variable.InReach (k : StageKind) (chain : List ScopeId) (v : Variable) : Prop :=
  v.scope = .program ∨ v.scope = .stage k ∨ v.scope ∈ chain

/-- A statement stands rightly in the innermost scope of a chain. Its variables are from a stock. -/
structure Stmt.Placed (V : List Variable) (k : StageKind) (chain : List ScopeId) (s : Stmt) :
    Prop where
  assignable : s.Assignable
  operands : ∀ e ∈ s.operands, ∀ v ∈ e.vars, v ∈ V ∧ v.InReach k chain
  header : ∀ body ∈ s.regions, ∀ e ∈ s.header, ∀ v ∈ e.vars,
    v ∈ V ∧ v.InReach k (body.id :: chain)
  written : ∀ v ∈ s.writtenVariables, v ∈ V ∧ v.InReach k chain
  declared : ∀ body ∈ s.regions, ∀ v ∈ body.declared, v ∈ V ∧ v.scope = body.id
  fresh : ∀ body ∈ s.regions, 3 ≤ body.id.index ∧ ∀ i ∈ chain, i.index < body.id.index
  loopVariable : ∀ v, s.loopVariable? = some v → ∀ body ∈ s.regions,
    v ∈ body.declared ∧ ∀ e ∈ s.header, ∀ w ∈ e.vars, w.scope = body.id → w = v

/-- Regions that satisfy a condition are told apart by their numbers. -/
def UniqueIds (P : Region → Prop) : Prop := ∀ r r', P r → P r' → r.id = r'.id → r = r'

/-- Statements stand rightly in the innermost scope of a chain, and so does what is nested in
them. -/
structure WellScoped (V : List Variable) (k : StageKind) (chain : List ScopeId)
    (ss : List Stmt) : Prop where
  placed : ∀ {path t}, Nested ss path t → t.Placed V k (path ++ chain)
  unique : UniqueIds (Holds ss)

namespace Stmt

theorem header_eq_nil {s : Stmt} (h : s.regions = []) : s.header = [] := by
  cases s <;> first | rfl | simp [regions] at h

/-- A variable that a statement reads is mentioned in an expression of its own scope or in the
header of its body. -/
theorem mentioned_of_mem_readVariables {s : Stmt} {v : Variable} (h : v ∈ s.readVariables) :
    (∃ e ∈ s.operands, v ∈ e.vars) ∨ ∃ e ∈ s.header, v ∈ e.vars := by
  have general (s : Stmt) (h : v ∈ (s.operands ++ s.header).flatMap Expr.vars) :
      (∃ e ∈ s.operands, v ∈ e.vars) ∨ ∃ e ∈ s.header, v ∈ e.vars := by
    obtain ⟨e, he, hv⟩ := List.mem_flatMap.mp h
    exact (List.mem_append.mp he).imp (fun he ↦ ⟨e, he, hv⟩) (fun he ↦ ⟨e, he, hv⟩)
  have target (e : Expr) (h : v ∈ e.indexVariables) : v ∈ e.vars := by
    fun_induction Expr.indexVariables e with
    | case1 _ source mask ih => exact ih h
    | case2 _ object index ih =>
      exact List.mem_append.mpr ((List.mem_append.mp h).imp_left ih)
    | _ => simp at h
  cases s with
  | assign e value =>
    refine .inl ((List.mem_append.mp h).elim (fun h ↦ ?_) fun h ↦ ?_)
    · exact ⟨e, List.mem_cons_self, target e h⟩
    · exact ⟨value, List.mem_cons_of_mem e List.mem_cons_self, h⟩
  | augment e op value =>
    rw [readVariables, List.mem_append, List.mem_append] at h
    rcases h with (h | h) | h
    · have hr : e.root? = some v := Option.mem_toList.mp h
      exact .inl ⟨e, List.mem_cons_self, (Expr.mem_vars_iff_of_root? hr).mpr (.inl rfl)⟩
    · exact .inl ⟨e, List.mem_cons_self, target e h⟩
    · exact .inl ⟨value, List.mem_cons_of_mem e List.mem_cons_self, h⟩
  | _ => exact general _ h

end Stmt

namespace Stmt.Placed

variable {V : List Variable} {k : StageKind} {chain : List ScopeId} {s : Stmt}

theorem leaf (hregions : s.regions = []) (assignable : s.Assignable)
    (operands : ∀ e ∈ s.operands, ∀ v ∈ e.vars, v ∈ V ∧ v.InReach k chain)
    (written : ∀ v ∈ s.writtenVariables, v ∈ V ∧ v.InReach k chain) : s.Placed V k chain where
  assignable := assignable
  operands := operands
  header body hb := by simp [hregions] at hb
  written := written
  declared body hb := by simp [hregions] at hb
  fresh body hb := by simp [hregions] at hb
  loopVariable v _ body hb := by simp [hregions] at hb

theorem mono {V' : List Variable} (h : s.Placed V k chain) (hV : ∀ v ∈ V, v ∈ V') :
    s.Placed V' k chain where
  assignable := h.assignable
  operands e he v hv := (h.operands e he v hv).imp_left (hV v)
  header body hb e he v hv := (h.header body hb e he v hv).imp_left (hV v)
  written v hv := (h.written v hv).imp_left (hV v)
  declared body hb v hv := (h.declared body hb v hv).imp_left (hV v)
  fresh := h.fresh
  loopVariable := h.loopVariable

/-- What a statement reads is in reach, or it is in the header of its body and in reach from
there. -/
theorem inReach_of_mem_readVariables (h : s.Placed V k chain) {v : Variable}
    (hv : v ∈ s.readVariables) :
    v ∈ V ∧ (v.InReach k chain ∨
      ∃ body ∈ s.regions, (∃ e ∈ s.header, v ∈ e.vars) ∧ v.InReach k (body.id :: chain)) := by
  rcases Stmt.mentioned_of_mem_readVariables hv with ⟨e, he, hv⟩ | ⟨e, he, hv⟩
  · exact (h.operands e he v hv).imp_right .inl
  · have hne : s.regions ≠ [] := fun hnil ↦ by simp [Stmt.header_eq_nil hnil] at he
    obtain ⟨body, hb⟩ := List.exists_mem_of_ne_nil _ hne
    have hreach := h.header body hb e he v hv
    exact ⟨hreach.1, .inr ⟨body, hb, ⟨e, he, hv⟩, hreach.2⟩⟩

end Stmt.Placed

namespace WellScoped

variable {V : List Variable} {k : StageKind} {chain : List ScopeId} {ss : List Stmt}

theorem mono {V' : List Variable} (h : WellScoped V k chain ss) (hV : ∀ v ∈ V, v ∈ V') :
    WellScoped V' k chain ss where
  placed ht := (h.placed ht).mono hV
  unique := h.unique

theorem nil : WellScoped V k chain [] where
  placed ht := by
    obtain ⟨s, hs, -⟩ := ht.exists_mem
    cases hs
  unique r r' hr := (Holds.not_nil hr).elim

theorem placed_of_mem (h : WellScoped V k chain ss) {s : Stmt} (hs : s ∈ ss) :
    s.Placed V k chain :=
  h.placed (.here hs)

theorem of_mem (h : WellScoped V k chain ss) {s : Stmt} (hs : s ∈ ss) :
    WellScoped V k chain [s] where
  placed ht := h.placed (ht.mono (by simpa using hs))
  unique r r' hr hr' := h.unique r r' (hr.mono (by simpa using hs)) (hr'.mono (by simpa using hs))

theorem body (h : WellScoped V k chain ss) {s : Stmt} (hs : s ∈ ss) {body : Region}
    (hb : body ∈ s.regions) : WellScoped V k (body.id :: chain) body.statements where
  placed {path t} ht := by
    have hp := h.placed (.inside hs hb ht)
    rwa [List.append_assoc, List.singleton_append] at hp
  unique r r' hr hr' := h.unique r r' (hr.inside hs hb) (hr'.inside hs hb)

/-- What is nested in well-scoped statements is well scoped where it stands. -/
theorem of_nested (h : WellScoped V k chain ss) {path : List ScopeId} {t : Stmt}
    (ht : Nested ss path t) : WellScoped V k (path ++ chain) [t] := by
  induction ht generalizing chain with
  | here hs => exact h.of_mem hs
  | inside hs hbody _ ih => simpa using ih (h.body hs hbody)

theorem fresh (h : WellScoped V k chain ss) {r : Region} (hr : Holds ss r) :
    3 ≤ r.id.index ∧ ∀ i ∈ chain, i.index < r.id.index := by
  obtain ⟨path, t, ht, hr⟩ := hr
  obtain ⟨hlow, hchain⟩ := (h.placed ht).fresh r hr
  exact ⟨hlow, fun i hi ↦ hchain i (List.mem_append_right path hi)⟩

/-- Statements are well scoped if they stand rightly and if all their regions are from other
well-scoped statements, but for a body that is newer than these. -/
theorem extend {ss' : List Stmt} {body : Region} (h : WellScoped V k chain ss)
    (hbody : WellScoped V k (body.id :: chain) body.statements)
    (hnew : ∀ r, Holds ss r → r.id.index < body.id.index)
    (hplaced : ∀ s ∈ ss', s.Placed V k chain)
    (hregions : ∀ s ∈ ss', ∀ r ∈ s.regions, r = body ∨ ∃ t ∈ ss, r ∈ t.regions) :
    WellScoped V k chain ss' where
  placed ht := by
    cases ht with
    | here hs => exact hplaced _ hs
    | inside hs hr ht =>
      rw [List.append_assoc, List.singleton_append]
      rcases hregions _ hs _ hr with rfl | ⟨u, hu, hr⟩
      · exact hbody.placed ht
      · exact (h.body hu hr).placed ht
  unique := by
    -- Old regions have smaller numbers than the body, and regions in the body have larger ones.
    have hin {r : Region} (hr : Holds body.statements r) : body.id.index < r.id.index :=
      (hbody.fresh hr).2 body.id List.mem_cons_self
    intro r r' hr hr' hid
    have hindex : r.id.index = r'.id.index := congrArg ScopeId.index hid
    rcases Holds.extend hregions hr with rfl | hr | hr <;>
      rcases Holds.extend hregions hr' with rfl | hr' | hr'
    · rfl
    · exact absurd hindex (Nat.ne_of_lt (hin hr'))
    · exact absurd hindex (Nat.ne_of_gt (hnew _ hr'))
    · exact absurd hindex (Nat.ne_of_gt (hin hr))
    · exact hbody.unique r r' hr hr' hid
    · exact absurd hindex (Nat.ne_of_gt (Nat.lt_trans (hnew _ hr') (hin hr)))
    · exact absurd hindex (Nat.ne_of_lt (hnew _ hr))
    · exact absurd hindex (Nat.ne_of_lt (Nat.lt_trans (hnew _ hr) (hin hr')))
    · exact h.unique r r' hr hr' hid

theorem concat {s : Stmt} (h : WellScoped V k chain ss) (hs : s.Placed V k chain)
    (hregions : s.regions = []) : WellScoped V k chain (ss ++ [s]) where
  placed ht := by
    rcases Nested.append_iff.mp ht with ht | ht
    · exact h.placed ht
    · obtain ⟨rfl, rfl⟩ := Nested.of_regions_eq_nil hregions ht
      exact hs
  unique r r' hr hr' :=
    h.unique r r' (Holds.of_concat hregions hr) (Holds.of_concat hregions hr')

end WellScoped

end ShaderGraph
