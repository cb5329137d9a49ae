import ShaderGraph.Proofs.Uniqueness

/-!
# Names that are in a table

A uniform or an inter-stage value is declared once for the whole program, and an
attribute once for its stage. Whoever declares it again is given the same
variable and changes nothing. Whoever wants its name for anything else is
refused, and changes nothing either.
-/

namespace ShaderGraph

/-- The declarations that give back what is there already. -/
inductive SharedKind where
  | uniform
  | interStage
  | attribute (kind : VariableKind)
  deriving DecidableEq, Repr

namespace SharedKind

def variableKind : SharedKind → VariableKind
  | uniform => .uniform
  | interStage => .interStage
  | .attribute kind => kind

/-- The table that a declaration looks into first. -/
def entries : SharedKind → Tables → List Variable
  | uniform, t => t.uniforms
  | interStage, t => t.interStage
  | .attribute _, t => t.attributes

def declare {σ : Type} (name : String) (type : ValueType) : SharedKind → Build σ StageDraft Variable
  | uniform => StageDraft.declareUniform name type
  | interStage => StageDraft.declareInterStage name type
  | .attribute kind => StageDraft.declareAttribute name type kind

/-- Uniforms and inter-stage values belong to the program, attributes to a stage. -/
def OfProgram : SharedKind → Prop
  | uniform | interStage => True
  | .attribute _ => False

/-- The declarations that give an entry of a table back. Attributes go by their kinds as well. -/
def returning (v : Variable) : SharedKind → SharedKind
  | uniform => uniform
  | interStage => interStage
  | .attribute _ => .attribute v.kind

/-- What is true of the entries of a table. An attribute may be of any kind, but is in the scope of
its stage. -/
def Holds (v : Variable) : SharedKind → Prop
  | uniform => v.kind = .uniform ∧ v.scope = .program
  | interStage => v.kind = .interStage ∧ v.scope = .program
  | .attribute _ => v.scope = .stage .vertex

@[simp] theorem entries_returning (k : SharedKind) (v : Variable) :
    (k.returning v).entries = k.entries := by
  cases k <;> rfl

theorem Holds.kind_eq {k : SharedKind} {v : Variable} (h : k.Holds v) :
    v.kind = (k.returning v).variableKind := by
  cases k with
  | uniform | interStage => exact h.1
  | «attribute» => rfl

/-- A variable is in no other table than one, and there for one kind of declarations only. -/
theorem Holds.unique {k k' : SharedKind} {v : Variable} (h : k.Holds v) (h' : k'.Holds v)
    (hkind : v.kind = k.variableKind) (hkind' : v.kind = k'.variableKind) : k = k' := by
  have hsame : k.variableKind = k'.variableKind := hkind.symm.trans hkind'
  have hprogram (hscope : v.scope = .program) : v.scope ≠ .stage .vertex := by
    rw [hscope]
    exact nofun
  cases k with
  | uniform =>
    cases k' with
    | uniform => rfl
    | interStage => cases hsame
    | «attribute» => exact absurd h' (hprogram h.2)
  | interStage =>
    cases k' with
    | uniform => cases hsame
    | interStage => rfl
    | «attribute» => exact absurd h' (hprogram h.2)
  | «attribute» =>
    cases k' with
    | uniform | interStage => exact absurd h (hprogram h'.2)
    | «attribute» => exact congrArg _ hsame

end SharedKind

/-- What a name is wanted for. -/
inductive Demand where
  | shared (kind : SharedKind) (type : ValueType)
  | output
  | localVar
  | function
  deriving DecidableEq, Repr

/-- The variable is what is wanted, and where it is looked for. -/
def Demand.Describes (t : Tables) : Demand → Variable → Prop
  | .shared kind type, v => v ∈ kind.entries t ∧ v.kind = kind.variableKind ∧ v.type = type
  | .output, _ | .localVar, _ | .function, _ => False

namespace Registry.Fits

variable {σ : Type} {R : Registry} {r : Resources} {v : Variable} {known : List Variable}

theorem reserveName_eq (h : R.Fits r) (hv : v ∈ R.vars) (c : σ) :
    Resources.reserveName v.name (r, c) = .error (.nameTaken v.name) (r, c) := by
  have hmem : v.name ∈ r.names.taken :=
    h.names.mem_iff.mpr (List.mem_append_left _ (List.mem_map_of_mem hv))
  have htaken : r.names.contains v.name = true := NamePool.contains_iff.mpr hmem
  simp [Resources.reserveName, NamePool.reserve, htaken]

/-- Among variables that were made, there is no other one with the name. -/
theorem eq_of_name (h : R.Fits r) (hv : v ∈ R.vars) {w : Variable} (hw : w ∈ R.vars)
    (hname : w.name = v.name) : w = v :=
  (h.unique.same w hw v hv).2.mp hname

theorem find?_name (h : R.Fits r) (hknown : ∀ w ∈ known, w ∈ R.vars) (hv : v ∈ R.vars) :
    known.find? (·.name == v.name) = if v ∈ known then some v else none := by
  cases hfind : known.find? (·.name == v.name) with
  | some w =>
    have hname : w.name = v.name := by simpa using List.find?_some hfind
    have hw := List.mem_of_find?_eq_some hfind
    obtain rfl := h.eq_of_name hv (hknown w hw) hname
    rw [if_pos hw]
  | none =>
    have hnot : v ∉ known := fun hmem ↦ by simpa using List.find?_eq_none.mp hfind v hmem
    rw [if_neg hnot]

theorem lookupOrDeclare_eq (h : R.Fits r) (hknown : ∀ w ∈ known, w ∈ R.vars) (hv : v ∈ R.vars)
    (add : Variable → Resources → Resources) (kind : VariableKind) (type : ValueType) (c : σ) :
    Resources.lookupOrDeclare known add kind v.name type (r, c) =
      if v ∈ known ∧ v.type = type then .ok v (r, c) else .error (.nameTaken v.name) (r, c) := by
  have hfind := h.find?_name hknown hv
  by_cases hmem : v ∈ known
  · rw [if_pos hmem] at hfind
    by_cases htype : v.type = type
    · simp only [Resources.lookupOrDeclare, hfind, if_pos htype, if_pos (And.intro hmem htype)]
      rfl
    · have hnot : ¬(v ∈ known ∧ v.type = type) := fun h ↦ htype h.2
      simp only [Resources.lookupOrDeclare, hfind, if_neg htype, if_neg hnot]
      rfl
  · rw [if_neg hmem] at hfind
    have hnot : ¬(v ∈ known ∧ v.type = type) := fun h ↦ hmem h.1
    simp only [Resources.lookupOrDeclare, hfind, if_neg hnot]
    exact Build.bind_error (h.reserveName_eq hv c)

theorem declareUniform_eq (h : R.Fits r) (hv : v ∈ R.vars) (type : ValueType) (c : σ) :
    Resources.declareUniform v.name type (r, c) =
      if v ∈ r.uniforms ∧ v.type = type then .ok v (r, c)
      else .error (.nameTaken v.name) (r, c) :=
  h.lookupOrDeclare_eq h.uniforms hv _ _ _ c

theorem declareInterStage_eq (h : R.Fits r) (hv : v ∈ R.vars) (type : ValueType) (c : σ) :
    Resources.declareInterStage v.name type (r, c) =
      if v ∈ r.interStage ∧ v.type = type then .ok v (r, c)
      else .error (.nameTaken v.name) (r, c) :=
  h.lookupOrDeclare_eq h.interStage hv _ _ _ c

end Registry.Fits

namespace Build

variable {σ S T α β : Type} {part : S → T} {set : S → T → S} {s : S} {c : σ}

theorem on_same {act : Build σ T α} {a : α} (h : act (part s, c) = .ok a (part s, c))
    (hset : set s (part s) = s) : on part set act (s, c) = .ok a (s, c) := by
  simp only [on_apply, h, hset]

theorem on_refused {act : Build σ T α} {e : BuildError} (h : act (part s, c) = .error e (part s, c))
    (hset : set s (part s) = s) : on part set act (s, c) = .error e (s, c) := by
  simp only [on_apply, h, hset]

/-- A construction that changes nothing is refused if what comes after it is. -/
theorem Looks.bind_refused {x : Build σ S α} {f : α → Build σ S β} (hx : x.Looks) {st : S × σ}
    (hf : ∀ a, ∃ e, f a st = .error e st) : ∃ e, (x >>= f) st = .error e st := by
  rcases hx st with ⟨a, h⟩ | ⟨e, h⟩
  · rw [Build.bind_ok h]
    exact hf a
  · exact ⟨e, Build.bind_error h⟩

end Build

namespace StageDraft

variable {σ : Type} {R : Registry} {s : StageDraft} {v : Variable}

theorem newStageVariable_refused (h : s.Invariant R) (hv : v ∈ R.vars) (type : ValueType)
    (kind : VariableKind) (c : σ) :
    newStageVariable v.name type kind (s, c) = .error (.nameTaken v.name) (s, c) :=
  Build.on_refused (Build.bind_error (h.fits.reserveName_eq hv c)) rfl

theorem expectStage_refused {item : String} {required : StageKind} (h : s.kind ≠ required) (c : σ) :
    expectStage item required (s, c) = .error (.wrongStage item required s.kind) (s, c) := by
  rw [expectStage, Build.draft_bind, if_neg h]
  rfl

theorem expectStage_ok {item : String} (c : σ) :
    expectStage item s.kind (s, c) = .ok () (s, c) := by
  rw [expectStage, Build.draft_bind, if_pos rfl]
  rfl

theorem declareAttribute_eq (h : s.Invariant R) (hv : v ∈ R.vars) (type : ValueType)
    (kind : VariableKind) (c : σ) :
    declareAttribute v.name type kind (s, c) =
      if s.kind = .vertex then
        if v ∈ s.attributes ∧ v.type = type ∧ v.kind = kind then .ok v (s, c)
        else .error (.nameTaken v.name) (s, c)
      else .error (.wrongStage ("attribute `" ++ v.name ++ "`") .vertex s.kind) (s, c) := by
  have hknown : ∀ w ∈ s.attributes, w ∈ R.vars := fun w hw ↦
    h.tables w (List.mem_append_left _ (List.mem_append_left _ hw))
  have hfind := h.fits.find?_name hknown hv
  by_cases hkind : s.kind = .vertex
  · rw [if_pos hkind, declareAttribute, ← hkind, Build.bind_ok (expectStage_ok c), Build.draft_bind]
    by_cases hmem : v ∈ s.attributes
    · rw [if_pos hmem] at hfind
      simp only [hfind, hmem, true_and]
      split <;> rfl
    · rw [if_neg hmem] at hfind
      simp only [hfind, hmem, false_and, if_false]
      exact Build.bind_error (newStageVariable_refused h hv _ _ c)
  · rw [if_neg hkind]
    exact Build.bind_error (expectStage_refused hkind c)

theorem declareOutput_refused (h : s.Invariant R) (hv : v ∈ R.vars) (type : ValueType) (c : σ) :
    ∃ e, declareOutput v.name type (s, c) = .error e (s, c) := by
  by_cases hkind : s.kind = .fragment
  · refine ⟨.nameTaken v.name, ?_⟩
    rw [declareOutput, ← hkind, Build.bind_ok (expectStage_ok c)]
    exact Build.bind_error (newStageVariable_refused h hv _ _ c)
  · exact ⟨_, Build.bind_error (expectStage_refused hkind c)⟩

theorem defineFunction_refused (h : s.Invariant R) (hv : v ∈ R.vars) (params : List ValueType)
    (result : Option ValueType) (body : List Variable → Build σ ScopeDraft (Option Expr)) (c : σ) :
    defineFunction (some v.name) params result body (s, c) =
      .error (.nameTaken v.name) (s, c) :=
  Build.bind_error (Build.on_refused (Build.bind_error (h.fits.reserveName_eq hv c)) rfl)

end StageDraft

namespace ScopeDraft

variable {σ : Type} {R : Registry} {s : ScopeDraft} {v : Variable}

theorem reserveName_refused (h : s.stage.Invariant R) (hv : v ∈ R.vars) (c : σ) :
    Build.onShared (Resources.reserveName v.name) (s, c) = .error (.nameTaken v.name) (s, c) :=
  Build.on_refused (Build.on_refused (h.fits.reserveName_eq hv c) rfl) rfl

theorem takeName_refused (h : s.stage.Invariant R) (hv : v ∈ R.vars) (stem : String) (c : σ) :
    Build.onShared (Resources.takeName (some v.name) stem) (s, c) =
      .error (.nameTaken v.name) (s, c) :=
  Build.on_refused (Build.on_refused (Build.bind_error (h.fits.reserveName_eq hv c)) rfl) rfl

theorem declareVariable_refused (h : s.stage.Invariant R) (hv : v ∈ R.vars) (type : ValueType)
    (init : Option Expr) (c : σ) :
    ∃ e, declareVariable type init (some v.name) (s, c) = .error e (s, c) := by
  have hname := takeName_refused h hv type.nameStem c
  cases init with
  | none => exact ⟨_, Build.bind_error hname⟩
  | some e =>
    exact (Build.Looks.ofExcept _).bind_refused fun _ ↦ (looks_checkReads e).bind_refused fun _ ↦
      ⟨_, Build.bind_error hname⟩

theorem bindNamed_refused (h : s.stage.Invariant R) (hv : v ∈ R.vars) (init : Expr) (c : σ) :
    ∃ e, bindNamed v.name init (s, c) = .error e (s, c) :=
  (looks_checkReads init).bind_refused fun _ ↦ ⟨_, Build.bind_error (reserveName_refused h hv c)⟩

end ScopeDraft

namespace Draft.Invariant

variable {R : Registry} {d : Draft} {k : SharedKind} {v : Variable} {type : ValueType}

/-- The entries of a table were made, and are as it has them. -/
theorem of_entry (h : d.Invariant R) (hv : v ∈ k.entries d.tables) : v ∈ R.vars ∧ k.Holds v := by
  have hresources {r : Resources} (h : R.Fits r) (hv : v ∈ k.entries r.tables) :
      v ∈ R.vars ∧ k.Holds v := by
    cases k with
    | uniform => exact ⟨h.uniforms v hv, h.uniformKinds v hv⟩
    | interStage => exact ⟨h.interStage v hv, h.interStageKinds v hv⟩
    | «attribute» => cases hv
  have hstage {s : StageDraft} (h : s.Invariant R) (hv : v ∈ k.entries s.tables) :
      v ∈ R.vars ∧ k.Holds v := by
    cases k with
    | uniform | interStage => exact hresources h.fits hv
    | «attribute» =>
      have hmem : v ∈ s.attributes := hv
      exact ⟨h.tables v (by simp [hmem]), (h.attributes v hmem).2⟩
  cases d with
  | program p => exact hresources (Program.Invariant.fits h) hv
  | resources r => exact hresources h hv
  | stage s => exact hstage h hv
  | scope s => exact hstage (ScopeDraft.Invariant.stage h) hv
  | block b => exact hstage (BlockDraft.Invariant.scope h).stage hv

/-- Nobody else wants a variable that is in a table. -/
theorem describes_iff (h : d.Invariant R) (hv : (Demand.shared k type).Describes d.tables v)
    (q : Demand) : q.Describes d.tables v ↔ q = .shared k type := by
  constructor
  · intro hq
    cases q with
    | shared k' type' =>
      obtain ⟨hmem, hkind, rfl⟩ := hv
      obtain ⟨hmem', hkind', rfl⟩ := hq
      obtain rfl := (h.of_entry hmem).2.unique (h.of_entry hmem').2 hkind hkind'
      rfl
    | output | localVar | function => cases hq
  · rintro rfl
    exact hv

end Draft.Invariant

/-! ## Declarations that were made before -/

namespace SharedKind

variable {σ : Type} {R : Registry} {s : StageDraft} {k : SharedKind} {v : Variable}
  {type : ValueType}

/-- A declaration of what is in its table gives it back. -/
theorem declare_of_describes (h : s.Invariant R)
    (hd : (Demand.shared k type).Describes s.tables v) (c : σ) :
    k.declare v.name type (s, c) = .ok v (s, c) := by
  obtain ⟨hmem, hkind, htype⟩ := hd
  have hvars : v ∈ R.vars := (Draft.Invariant.of_entry (d := .stage s) h hmem).1
  cases k with
  | uniform =>
    have hrun := h.fits.declareUniform_eq hvars type c
    exact Build.on_same (hrun.trans (if_pos ⟨hmem, htype⟩)) rfl
  | interStage =>
    have hrun := h.fits.declareInterStage_eq hvars type c
    exact Build.on_same (hrun.trans (if_pos ⟨hmem, htype⟩)) rfl
  | «attribute» kind =>
    have hstage : s.kind = .vertex := (h.attributes v hmem).1
    have hmatch : v ∈ s.attributes ∧ v.type = type ∧ v.kind = kind := ⟨hmem, htype, hkind⟩
    rw [declare, StageDraft.declareAttribute_eq h hvars, if_pos hstage, if_pos hmatch]

/-- A declaration of anything else under the name is refused, because the name is taken if the
table is the same. -/
theorem declare_of_not_describes (h : s.Invariant R) (hv : v ∈ R.vars)
    (hd : ¬(Demand.shared k type).Describes s.tables v) (c : σ) :
    ∃ e, k.declare v.name type (s, c) = .error e (s, c) ∧
      (v ∈ k.entries s.tables → e = .nameTaken v.name) := by
  cases k with
  | uniform =>
    have hnot : ¬(v ∈ s.resources.uniforms ∧ v.type = type) := fun ⟨hmem, htype⟩ ↦
      hd ⟨hmem, (h.fits.uniformKinds v hmem).1, htype⟩
    have hrun := (h.fits.declareUniform_eq hv type c).trans (if_neg hnot)
    exact ⟨_, Build.on_refused hrun rfl, fun _ ↦ rfl⟩
  | interStage =>
    have hnot : ¬(v ∈ s.resources.interStage ∧ v.type = type) := fun ⟨hmem, htype⟩ ↦
      hd ⟨hmem, (h.fits.interStageKinds v hmem).1, htype⟩
    have hrun := (h.fits.declareInterStage_eq hv type c).trans (if_neg hnot)
    exact ⟨_, Build.on_refused hrun rfl, fun _ ↦ rfl⟩
  | «attribute» kind =>
    have hnot : ¬(v ∈ s.attributes ∧ v.type = type ∧ v.kind = kind) :=
      fun ⟨hmem, htype, hkind⟩ ↦ hd ⟨hmem, hkind, htype⟩
    rw [declare, StageDraft.declareAttribute_eq h hv, if_neg hnot]
    split
    · exact ⟨_, rfl, fun _ ↦ rfl⟩
    · next hstage => exact ⟨_, rfl, fun hmem ↦ absurd (h.attributes v hmem).1 hstage⟩

end SharedKind

namespace Resources

variable {σ : Type} {R : Registry} {r r' : Resources} {c c' : σ} {known : List Variable}
  {add : Variable → Resources → Resources} {kind : VariableKind} {name : String} {v : Variable}
  {type : ValueType}

theorem of_lookupOrDeclare (hkinds : ∀ w ∈ known, w.kind = kind)
    (h : lookupOrDeclare known add kind name type (r, c) = .ok v (r', c')) :
    v.name = name ∧ (v.kind = kind ∧ v.type = type) ∧
      (v ∈ known ∧ r' = r ∨ ∃ r₁, r' = add v r₁) := by
  rcases lookupOrDeclare_cases r c known add kind name type with
    ⟨w, hw, hname, htype, hrun⟩ | ⟨w, r₁, -, hname, htype, -, hkind, -, hrun⟩ | ⟨e, hrun⟩ <;>
    rw [hrun] at h <;> cases h
  · exact ⟨hname, ⟨hkinds v hw, htype⟩, .inl ⟨hw, rfl⟩⟩
  · exact ⟨hname, ⟨hkind, htype⟩, .inr ⟨r₁, rfl⟩⟩

theorem of_declareUniform (hr : R.Fits r)
    (h : declareUniform name type (r, c) = .ok v (r', c')) :
    v.name = name ∧ (Demand.shared .uniform type).Describes r'.tables v := by
  obtain ⟨hname, hd, ⟨hmem, rfl⟩ | ⟨r₁, rfl⟩⟩ :=
    of_lookupOrDeclare (fun w hw ↦ (hr.uniformKinds w hw).1) h
  · exact ⟨hname, hmem, hd⟩
  · exact ⟨hname, List.mem_append_right _ (List.mem_singleton_self v), hd⟩

theorem of_declareInterStage (hr : R.Fits r)
    (h : declareInterStage name type (r, c) = .ok v (r', c')) :
    v.name = name ∧ (Demand.shared .interStage type).Describes r'.tables v := by
  obtain ⟨hname, hd, ⟨hmem, rfl⟩ | ⟨r₁, rfl⟩⟩ :=
    of_lookupOrDeclare (fun w hw ↦ (hr.interStageKinds w hw).1) h
  · exact ⟨hname, hmem, hd⟩
  · exact ⟨hname, List.mem_append_right _ (List.mem_singleton_self v), hd⟩

end Resources

theorem StageDraft.of_declareAttribute {σ : Type} {s s' : StageDraft} {c c' : σ} {name : String}
    {type : ValueType} {kind : VariableKind} {v : Variable}
    (h : declareAttribute name type kind (s, c) = .ok v (s', c')) :
    v.name = name ∧ (Demand.shared (.attribute kind) type).Describes s'.tables v := by
  by_cases hstage : s.kind = .vertex
  · rw [declareAttribute, ← hstage, Build.bind_ok (expectStage_ok c), Build.draft_bind] at h
    cases hfind : s.attributes.find? (·.name == name) with
    | some w =>
      have hname : w.name = name := by simpa using List.find?_some hfind
      by_cases hmatch : w.type = type ∧ w.kind = kind
      · simp only [hfind, if_pos hmatch] at h
        cases h
        exact ⟨hname, List.mem_of_find?_eq_some hfind, hmatch.2, hmatch.1⟩
      · simp only [hfind, if_neg hmatch] at h
        cases h
    | none =>
      simp only [hfind] at h
      rcases newStageVariable_cases s c name type kind with
        ⟨w, r, -, hname, htype, -, hkind, hrun⟩ | ⟨e, hrun⟩
      · rw [Build.bind_ok hrun] at h
        cases h
        exact ⟨hname, List.mem_append_right _ (List.mem_singleton_self _), hkind, htype⟩
      · rw [Build.bind_error hrun] at h
        cases h
  · rw [declareAttribute, Build.bind_error (expectStage_refused hstage c)] at h
    cases h

/-- What a declaration gives is as wanted, and in its table from then on. -/
theorem SharedKind.of_declare {σ : Type} {R : Registry} {s s' : StageDraft} {c c' : σ}
    {k : SharedKind} {name : String} {type : ValueType} {v : Variable} (hs : s.Invariant R)
    (h : k.declare name type (s, c) = .ok v (s', c')) :
    v.name = name ∧ (Demand.shared k type).Describes s'.tables v := by
  have hresources {act : Build σ Resources Variable}
      (h : Build.onResources act (s, c) = .ok v (s', c')) :
      act (s.resources, c) = .ok v (s'.resources, c') := by
    rw [Build.onResources, Build.on_apply] at h
    rcases hrun : act (s.resources, c) with ⟨a, r, c₁⟩ | ⟨e, r, c₁⟩ <;> rw [hrun] at h <;> cases h
    rfl
  cases k with
  | uniform => exact Resources.of_declareUniform hs.fits (hresources h)
  | interStage => exact Resources.of_declareInterStage hs.fits (hresources h)
  | «attribute» => exact StageDraft.of_declareAttribute h

/-- Whoever wants the name of a variable is given the variable if it was declared as what he wants,
and is refused otherwise. Nothing changes. -/
structure StageDraft.Settles (s : StageDraft) (k : SharedKind) (v : Variable) : Prop where
  kind : v.kind = k.variableKind
  given : ∀ {σ : Type} (c : σ), k.declare v.name v.type (s, c) = .ok v (s, c)
  refused : ∀ {σ : Type} (c : σ) (k' : SharedKind) type, (k' = k → type ≠ v.type) →
    ∃ e, k'.declare v.name type (s, c) = .error e (s, c) ∧
      (v ∈ k'.entries s.tables → e = .nameTaken v.name)
  output : ∀ {σ : Type} (c : σ) type, ∃ e, declareOutput v.name type (s, c) = .error e (s, c)
  function : ∀ {σ : Type} (c : σ) params result body,
    defineFunction (some v.name) params result body (s, c) = .error (.nameTaken v.name) (s, c)
  localVar : ∀ {σ : Type} (c : σ) (t : ScopeDraft), t.stage = s → ∀ type init,
    ∃ e, ScopeDraft.declareVariable type init (some v.name) (t, c) = .error e (t, c)
  boundVar : ∀ {σ : Type} (c : σ) (t : ScopeDraft), t.stage = s → ∀ init,
    ∃ e, ScopeDraft.bindNamed v.name init (t, c) = .error e (t, c)

theorem StageDraft.Invariant.settles {R : Registry} {s : StageDraft} {k : SharedKind} {v : Variable}
    (h : s.Invariant R) (hv : v ∈ k.entries s.tables) : s.Settles (k.returning v) v := by
  obtain ⟨hvars, hholds⟩ := Draft.Invariant.of_entry (d := .stage s) h hv
  have hd : (Demand.shared (k.returning v) v.type).Describes s.tables v :=
    ⟨(k.entries_returning v).symm ▸ hv, hholds.kind_eq, rfl⟩
  refine ⟨hholds.kind_eq, fun c ↦ SharedKind.declare_of_describes h hd c,
    fun c k' type hne ↦ SharedKind.declare_of_not_describes h hvars (fun hd' ↦ ?_) c,
    fun c type ↦ declareOutput_refused h hvars type c,
    fun c params result body ↦ defineFunction_refused h hvars params result body c,
    fun c t ht type init ↦ ?_, fun c t ht init ↦ ?_⟩
  · have hsame := (Draft.Invariant.describes_iff (d := .stage s) h hd _).mp hd'
    obtain ⟨hk, htype⟩ := Demand.shared.inj hsame
    exact hne hk htype
  · exact ScopeDraft.declareVariable_refused (ht ▸ h) hvars type init c
  · exact ScopeDraft.bindNamed_refused (ht ▸ h) hvars init c

end ShaderGraph
