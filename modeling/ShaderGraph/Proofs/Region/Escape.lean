import ShaderGraph.Proofs.Region.Scoping

/-!
# What nested regions hide

The reads and the writes of well-scoped statements are gathered in the same
way: what a statement has itself, and what the regions in it have and do not
declare. So both are covered by the one notion `Gathers`. A variable gathered
through a region that declares it can only come from the header of that region.
-/

namespace ShaderGraph

/-- The set of a statement has its own variables and those of its regions, less what is hidden. -/
def Gathers (V : List Variable) (k : StageKind) (f : Stmt → VarSet)
    (own : Stmt → List Variable) : Prop :=
  ∀ chain s v, WellScoped V k chain [s] → v ∈ V →
    (v ∈ f s ↔
      (v ∈ own s ∨ ∃ body ∈ s.regions, v ∉ body.declared ∧ ∃ t ∈ body.statements, v ∈ f t) ∧
        s.loopVariable? ≠ some v)

namespace Gathers

variable {V : List Variable} {k : StageKind} {f : Stmt → VarSet}
  {own : Stmt → List Variable} {chain : List ScopeId} {s : Stmt} {v : Variable}

/-- What is gathered is somewhere a variable of its own, and no region on the way declares it. -/
theorem exists_own (hf : Gathers V k f own) (h : WellScoped V k chain [s]) (hv : v ∈ V)
    (hsv : v ∈ f s) : ∃ path t, Nested [s] path t ∧ v ∈ own t ∧ t.loopVariable? ≠ some v ∧
      ∀ r, Holds [s] r → r.id ∈ path → v ∉ r.declared := by
  induction s using Stmt.nestedInduction generalizing chain with | step s ih =>
  obtain ⟨hown | ⟨body, hb, hdecl, t, ht, htv⟩, hloop⟩ :=
    (hf _ _ _ h hv).mp hsv
  · exact ⟨[], s, .here List.mem_cons_self, hown, hloop, fun r hr hpath ↦ by simp at hpath⟩
  · obtain ⟨path, u, hu, huv, hul, hpath⟩ :=
      ih body hb t ht ((h.body List.mem_cons_self hb).of_mem ht) htv
    have hsub : ∀ x ∈ [t], x ∈ body.statements := fun x hx ↦ List.mem_singleton.mp hx ▸ ht
    refine ⟨_, u, .inside List.mem_cons_self hb (hu.mono hsub), huv, hul, ?_⟩
    intro r hr hid
    -- Numbers tell regions apart, so one with a number from the path is on the way itself.
    rcases List.mem_append.mp hid with hid | hid
    · obtain ⟨r', hr', hid'⟩ := hu.exists_holds_of_mem hid
      have heq := h.unique r r' hr (.inside List.mem_cons_self hb (hr'.mono hsub)) hid'.symm
      exact heq ▸ hpath r' hr' (hid' ▸ hid)
    · have heq := h.unique r body hr (.of_mem List.mem_cons_self hb) (List.mem_singleton.mp hid)
      exact heq ▸ hdecl

/-- What a nested statement gathers goes on to the ones around it, unless a region on the way has
the number of its scope. -/
theorem of_nested (hf : Gathers V k f own) (h : WellScoped V k chain [s]) (hv : v ∈ V)
    {path : List ScopeId} {t : Stmt} (ht : Nested [s] path t) (htv : v ∈ f t)
    (hpath : v.scope ∉ path) : v ∈ f s := by
  induction s using Stmt.nestedInduction generalizing chain path with | step s ih =>
  rcases Nested.singleton_iff.mp ht with ⟨rfl, rfl⟩ | ⟨body, hb, rest, rfl, hrest⟩
  · exact htv
  · have hs := h.placed_of_mem List.mem_cons_self
    have hscope : v.scope ≠ body.id := fun heq ↦ hpath (by simp [heq])
    have hdecl : v ∉ body.declared := fun hmem ↦ hscope (hs.declared body hb v hmem).2
    obtain ⟨u, hu, hnested⟩ := hrest.exists_mem
    have huv := ih body hb u hu ((h.body List.mem_cons_self hb).of_mem hu) hnested
      fun hmem ↦ hpath (List.mem_append_left _ hmem)
    refine (hf _ _ _ h hv).mpr ⟨.inr ⟨body, hb, hdecl, u, hu, huv⟩, ?_⟩
    intro hloop
    exact hdecl (hs.loopVariable v hloop body hb).1

/-- What a nested statement has of its own is gathered, unless a nested region declares it. -/
theorem of_own (hf : Gathers V k f own) (h : WellScoped V k chain [s]) (hv : v ∈ V)
    {path : List ScopeId} {t : Stmt} (ht : Nested [s] path t) (htv : v ∈ own t) :
    v ∈ f s ∨ DeclaresWithin [s] v := by
  by_cases hdecl : DeclaresWithin [s] v
  · exact .inr hdecl
  · refine .inl ?_
    induction s using Stmt.nestedInduction generalizing chain path with | step s ih =>
    have hs := h.placed_of_mem List.mem_cons_self
    -- What a loop hides is declared in its body.
    have hloop : s.loopVariable? ≠ some v := fun hloop ↦ by
      cases s with
      | loopFor w init condition update body =>
        exact hdecl ⟨body, .of_mem List.mem_cons_self List.mem_cons_self,
          (hs.loopVariable v hloop body List.mem_cons_self).1⟩
      | _ => simp [Stmt.loopVariable?] at hloop
    rcases Nested.singleton_iff.mp ht with ⟨rfl, rfl⟩ | ⟨body, hb, rest, rfl, hrest⟩
    · exact (hf _ _ _ h hv).mpr ⟨.inl htv, hloop⟩
    · obtain ⟨u, hu, hnested⟩ := hrest.exists_mem
      have hsub : ∀ x ∈ [u], x ∈ body.statements := fun x hx ↦ List.mem_singleton.mp hx ▸ hu
      have hdecl' : ¬DeclaresWithin [u] v := by
        rintro ⟨r, hr, hmem⟩
        exact hdecl ⟨r, .inside List.mem_cons_self hb (hr.mono hsub), hmem⟩
      have huv := ih body hb u hu ((h.body List.mem_cons_self hb).of_mem hu) hnested hdecl'
      have hbody : v ∉ body.declared := fun hmem ↦
        hdecl ⟨body, .of_mem List.mem_cons_self hb, hmem⟩
      exact (hf _ _ _ h hv).mpr ⟨.inr ⟨body, hb, hbody, u, hu, huv⟩, hloop⟩

end Gathers

section Effects

variable {V : List Variable} {k : StageKind} {chain : List ScopeId} {s : Stmt} {v : Variable}

namespace Stmt.Placed

theorem mem_of_loopVariable (h : s.Placed V k chain) (hv : s.loopVariable? = some v) : v ∈ V := by
  cases s with
  | loopFor w init condition update body =>
    have hbody := (h.loopVariable v hv body List.mem_cons_self).1
    exact (h.declared body List.mem_cons_self v hbody).1
  | _ => simp [loopVariable?] at hv

theorem loopVariable_any_iff (h : s.Placed V k chain) (hV : Distinct V) (hv : v ∈ V) :
    (!s.loopVariable?.any (·.id == v.id)) = true ↔ s.loopVariable? ≠ some v := by
  cases hs : s.loopVariable? with
  | none => simp
  | some w =>
    have hw := h.mem_of_loopVariable hs
    simp only [Option.any_some, Bool.not_eq_true', beq_eq_false_iff_ne, ne_eq, Option.some.injEq]
    exact ⟨fun hne heq ↦ hne (heq ▸ rfl), fun hne hid ↦ hne (hV w hw v hv hid)⟩

end Stmt.Placed

namespace Collects

variable {f : Stmt → VarSet} {g : Region → VarSet} {own : Stmt → List Variable}

theorem mem_of_mem (hf : Collects f g own)
    (hown : ∀ {chain s}, Stmt.Placed V k chain s → ∀ w ∈ own s, w ∈ V)
    (h : WellScoped V k chain [s]) (hv : v ∈ f s) : v ∈ V := by
  induction s using Stmt.nestedInduction generalizing chain with | step s ih =>
  have hs := h.placed_of_mem List.mem_cons_self
  rcases hf.mem hs.assignable hv with hv | ⟨body, hb, hv⟩
  · exact hown hs v hv
  · obtain ⟨t, ht, hv⟩ := hf.region_mem hv
    exact ih body hb t ht ((h.body List.mem_cons_self hb).of_mem ht) hv

/-- What is collected is gathered. Sets go by numbers, so this needs a stock of variables. -/
theorem gathers (hf : Collects f g own)
    (hown : ∀ {chain s}, Stmt.Placed V k chain s → ∀ w ∈ own s, w ∈ V) (hV : Distinct V) :
    Gathers V k f own := by
  intro chain s v h hv
  have hs := h.placed_of_mem List.mem_cons_self
  have hregion (body : Region) (hb : body ∈ s.regions) : (g body).contains v = true ↔
      v ∉ body.declared ∧ ∃ t ∈ body.statements, v ∈ f t := by
    rw [hf.region_contains, Bool.and_eq_true, List.any_eq_true, Bool.not_eq_true',
      ← Bool.not_eq_true, hV.any_id_iff (fun w hw ↦ (hs.declared body hb w hw).1) hv, and_comm]
    refine and_congr_right' (exists_congr fun t ↦ and_congr_right fun ht ↦ ?_)
    have ht := (h.body List.mem_cons_self hb).of_mem ht
    exact (VarSet.mem_iff_contains hV (fun w hw ↦ hf.mem_of_mem hown ht hw) hv).symm
  rw [VarSet.mem_iff_contains hV (fun w hw ↦ hf.mem_of_mem hown h hw) hv,
    hf.contains hs.assignable, Bool.and_eq_true, hs.loopVariable_any_iff hV hv,
    Bool.or_eq_true, hV.any_id_iff (hown hs) hv, List.any_eq_true]
  exact and_congr_left' (or_congr_right (exists_congr fun body ↦ and_congr_right (hregion body)))

end Collects

namespace WellScoped

theorem mem_of_mem_reads (h : WellScoped V k chain [s]) (hv : v ∈ s.reads) : v ∈ V :=
  Stmt.reads_collects.mem_of_mem (fun hs _ hw ↦ (hs.inReach_of_mem_readVariables hw).1) h hv

theorem mem_of_mem_writes (h : WellScoped V k chain [s]) (hv : v ∈ s.writes) : v ∈ V :=
  Stmt.writes_collects.mem_of_mem (fun hs w hw ↦ (hs.written w hw).1) h hv

theorem gathers_reads (hV : Distinct V) : Gathers V k Stmt.reads Stmt.readVariables :=
  Stmt.reads_collects.gathers (fun hs _ hw ↦ (hs.inReach_of_mem_readVariables hw).1) hV

theorem gathers_writes (hV : Distinct V) : Gathers V k Stmt.writes Stmt.writtenVariables :=
  Stmt.writes_collects.gathers (fun hs w hw ↦ (hs.written w hw).1) hV

/-- A variable that a nested region declares is in no reach from outside of the region. -/
theorem id_mem_of_inReach (h : WellScoped V k chain [s]) {r : Region} (hr : Holds [s] r)
    (hv : v ∈ r.declared) {path : List ScopeId} (hreach : v.InReach k (path ++ chain)) :
    r.id ∈ path := by
  obtain ⟨hlow, hchain⟩ := h.fresh hr
  obtain ⟨path', t, ht, hrt⟩ := hr
  have hscope := ((h.placed ht).declared r hrt v hv).2
  rw [Variable.InReach, hscope, List.mem_append] at hreach
  rcases hreach with heq | heq | hmem | hmem
  · rw [heq] at hlow
    simp [ScopeId.program] at hlow
  · rw [heq] at hlow
    cases k <;> simp [ScopeId.stage] at hlow
  · exact hmem
  · exact (Nat.lt_irrefl _ (hchain r.id hmem)).elim

theorem mem_of_mem_declared (h : WellScoped V k chain [s]) {r : Region} (hr : Holds [s] r)
    (hv : v ∈ r.declared) : v ∈ V := by
  obtain ⟨path, t, ht, hrt⟩ := hr
  exact ((h.placed ht).declared r hrt v hv).1

/-- Variables declared in nested regions never get out by a write. -/
theorem not_mem_writes (hV : Distinct V) (h : WellScoped V k chain [s])
    (hv : DeclaresWithin [s] v) : v ∉ s.writes := by
  intro hmem
  obtain ⟨r, hr, hvr⟩ := hv
  obtain ⟨path, t, ht, hown, -, hpath⟩ :=
    (gathers_writes hV).exists_own h (h.mem_of_mem_declared hr hvr) hmem
  exact hpath r hr (h.id_mem_of_inReach hr hvr ((h.placed ht).written v hown).2) hvr

/-- Variables declared in nested regions get out by a read only if they are declared in the body
of a block and read by a value that is wired to this block. -/
theorem mem_reads_iff_of_declaresWithin (hV : Distinct V) (h : WellScoped V k chain [s])
    (hv : DeclaresWithin [s] v) : v ∈ s.reads ↔
      ∃ path b, Nested [s] path (.block b) ∧ v ∈ b.body.declared ∧
        ∃ i ∈ b.inputs, v ∈ i.value.vars := by
  constructor
  · intro hmem
    obtain ⟨r, hr, hvr⟩ := hv
    obtain ⟨path, t, ht, hown, hloop, hpath⟩ :=
      (gathers_reads hV).exists_own h (h.mem_of_mem_declared hr hvr) hmem
    have hplaced := h.placed ht
    have hout : r.id ∉ path := fun hid ↦ hpath r hr hid hvr
    obtain ⟨-, hreach | ⟨body, hb, ⟨e, he, hve⟩, hreach⟩⟩ :=
      hplaced.inReach_of_mem_readVariables hown
    · exact (hout (h.id_mem_of_inReach hr hvr hreach)).elim
    -- The region is not on the way, so it is the one whose header reads the variable.
    · rw [← List.cons_append] at hreach
      have hid := (List.mem_cons.mp (h.id_mem_of_inReach hr hvr hreach)).resolve_right hout
      obtain rfl := h.unique r body hr ⟨path, t, ht, hb⟩ hid
      cases t with
      | block b =>
        obtain rfl := List.mem_singleton.mp hb
        obtain ⟨i, hi, rfl⟩ := List.mem_map.mp he
        exact ⟨path, b, ht, hvr, i, hi, hve⟩
      | loopFor w init condition update body =>
        obtain ⟨-, hheader⟩ := hplaced.loopVariable w rfl r hb
        have hw := hheader e he v hve (hplaced.declared r hb v hvr).2
        exact (hloop (hw ▸ rfl)).elim
      | _ => simp [Stmt.header] at he
  · rintro ⟨path, b, ht, hvb, i, hi, hvi⟩
    have hplaced := h.placed ht
    have hb : Holds [s] b.body := ⟨path, _, ht, List.mem_cons_self⟩
    have hvV := h.mem_of_mem_declared hb hvb
    obtain ⟨-, hscope⟩ := hplaced.declared b.body List.mem_cons_self v hvb
    have hread : v ∈ (Stmt.block b).readVariables := by
      simp only [Stmt.readVariables, Stmt.operands, Stmt.header, List.nil_append, List.mem_flatMap,
        List.mem_map]
      exact ⟨_, ⟨i, hi, rfl⟩, hvi⟩
    have hpath : v.scope ∉ path := fun hmem ↦ by
      have hlt := (hplaced.fresh b.body List.mem_cons_self).2 v.scope (List.mem_append_left _ hmem)
      rw [hscope] at hlt
      exact Nat.lt_irrefl _ hlt
    have hgather := gathers_reads (k := k) hV
    refine hgather.of_nested h hvV ht ?_ hpath
    exact (hgather _ _ _ (h.of_nested ht) hvV).mpr ⟨.inl hread, by simp [Stmt.loopVariable?]⟩

end WellScoped

end Effects

end ShaderGraph
