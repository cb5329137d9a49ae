import ShaderGraph.Proofs.Calls
import ShaderGraph.Proofs.Draft.Tables
import ShaderGraph.Proofs.Typing

/-!
# Functions that operations define

Operations define functions one after the other. Each of them has a new name,
and calls only functions that clients were given before, among them those that
were defined before it, also within its own body.
-/

namespace ShaderGraph

variable {R R' : Registry} {k : StageKind} {frames : List Frame}

theorem Expr.Known.mem_signatures {e : Expr} (h : e.Known R) {g : Signature}
    (hg : g ∈ e.callees) : g ∈ R.signatures := by
  induction h with
  | lit value => simp [callees] at hg
  | var _ => simp [callees] at hg
  | unary _ _ ih => exact ih hg
  | binary _ _ _ iha ihb => exact (List.mem_append.mp hg).elim iha ihb
  | @call type callee args hcallee _ _ ih =>
    rw [callees, List.mem_append, mem_calleesOfList] at hg
    rcases hg with hg | ⟨e, he, hg⟩
    · cases callee with
      | builtin f => cases hg
      | user f => exact hcallee g (by rw [List.mem_singleton.mp hg])
    · exact ih e he hg
  | swizzle _ _ ih => exact ih hg
  | lookup _ _ _ iho ihi => exact (List.mem_append.mp hg).elim iho ihi

theorem Stmt.Accepted.mem_signatures {s : Stmt} (h : s.Accepted R k frames) {g : Signature}
    (hg : g ∈ s.callees) : g ∈ R.signatures := by
  rw [Stmt.callees, List.mem_append, Expr.mem_calleesOfList] at hg
  rcases hg with hg | ⟨e, he, hg⟩
  · cases h with
    | invoke hf => exact List.mem_singleton.mp hg ▸ hf
    | _ => cases hg
  · exact (h.known (List.mem_append.mp he)).mem_signatures hg

/-- A function calls only what clients were given. -/
theorem Function.Accepted.mem_signatures {f : Function} (h : f.Accepted R k) {g : Signature}
    (hg : CallsWithin f.code g) : g ∈ R.signatures := by
  obtain ⟨path, t, ht, hg⟩ := hg
  rcases Nested.append_iff.mp ht with ht | ht
  · obtain ⟨frames, haccepted, -⟩ := h.body.of_nested ht
    exact haccepted.mem_signatures hg
  · obtain ⟨-, rfl⟩ := ht.of_regions_eq_nil rfl
    have hcallees : g ∈ Expr.calleesOfList f.result.toList := by
      simpa [Stmt.callees, Stmt.invoked?, Stmt.operands, Stmt.header] using hg
    obtain ⟨e, he, hg⟩ := Expr.mem_calleesOfList.mp hcallees
    exact (h.result e (Option.mem_toList.mp he)).mem_signatures hg

/-! ## Functions in order -/

/-- Each function calls only functions that are given or come before it. -/
def CallsBackward (given : Set Signature) : List Function → Prop
  | [] => True
  | f :: rest =>
    (∀ g, CallsWithin f.code g → g ∈ given) ∧ CallsBackward (insert f.signature given) rest

/-- The functions that are given, and more. -/
def Function.giving (fs : List Function) (given : Set Signature) : Set Signature :=
  {g | g ∈ given ∨ g ∈ fs.map Function.signature}

namespace CallsBackward

variable {given given' : Set Signature} {fs gs : List Function} {f : Function}

theorem mono (h : CallsBackward given fs) (hgiven : given ⊆ given') : CallsBackward given' fs := by
  induction fs generalizing given given' with
  | nil => trivial
  | cons f rest ih =>
    exact ⟨fun g hg ↦ hgiven (h.1 g hg), ih h.2 (Set.insert_subset_insert hgiven)⟩

theorem append (h : CallsBackward given fs) (h' : CallsBackward (Function.giving fs given) gs) :
    CallsBackward given (fs ++ gs) := by
  induction fs generalizing given with
  | nil => exact h'.mono fun g hg ↦ hg.resolve_right (List.not_mem_nil)
  | cons f rest ih =>
    refine ⟨h.1, ih h.2 (h'.mono ?_)⟩
    rintro g (hg | hg)
    · exact .inl (Set.mem_insert_of_mem _ hg)
    · rcases List.mem_cons.mp hg with rfl | hg
      · exact .inl (Set.mem_insert _ _)
      · exact .inr hg

theorem snoc (h : CallsBackward given fs)
    (hf : ∀ g, CallsWithin f.code g → g ∈ Function.giving fs given) :
    CallsBackward given (fs ++ [f]) :=
  h.append ⟨hf, trivial⟩

/-- What a function calls is given or comes before it. -/
theorem mem_take (h : CallsBackward given fs) {i : Nat} (hi : fs[i]? = some f) {g : Signature}
    (hg : CallsWithin f.code g) : g ∈ given ∨ g ∈ (fs.take i).map Function.signature := by
  induction fs generalizing given i with
  | nil => cases hi
  | cons first rest ih =>
    cases i with
    | zero =>
      obtain rfl := Option.some.inj hi
      exact .inl (h.1 g hg)
    | succ i =>
      rcases ih h.2 hi with hg | hg
      · rcases hg with rfl | hg
        · exact .inr List.mem_cons_self
        · exact .inl hg
      · exact .inr (List.mem_cons_of_mem _ hg)

end CallsBackward

/-- From tables and functions that are given, functions were defined that are in the tables at the
end. Their names are new, and they call only what was given by then. So does a main function that is
new, and clients are given nothing else. -/
structure Defines (given : Set Signature) (t : Tables) (fs : List Function) (given' : Set Signature)
    (t' : Tables) : Prop where
  functions : t'.functions = t.functions ++ fs
  names : (fs.map (·.signature.name)).Nodup
  fresh : ∀ f ∈ fs, f.signature.name ∉ t.names ∧ f.signature.name ∈ t'.names
  calls : CallsBackward given fs
  signatures : given' ⊆ Function.giving fs given
  main : ∀ f ∈ t'.main, f ∈ t.main ∨
    f.signature = ⟨"main", [], none⟩ ∧ ∀ g, CallsWithin f.code g → g ∈ given'

namespace Defines

variable {given given₁ given₂ : Set Signature} {t t₁ t₂ : Tables} {fs gs : List Function}
  {f : Function}

theorem nil (hfunctions : t₁.functions = t.functions) (hmain : t₁.main = t.main)
    (hgiven : given₁ ⊆ given) : Defines given t [] given₁ t₁ where
  functions := by rw [hfunctions, List.append_nil]
  names := .nil
  fresh := by simp
  calls := trivial
  signatures _ hg := .inl (hgiven hg)
  main _ hf := .inl (hmain ▸ hf)

theorem append (h : Defines given t fs given₁ t₁) (h' : Defines given₁ t₁ gs given₂ t₂)
    (hnames : t.names ⊆ t₁.names) (hnames' : t₁.names ⊆ t₂.names) (hgiven : given₁ ⊆ given₂) :
    Defines given t (fs ++ gs) given₂ t₂ where
  functions := by rw [h'.functions, h.functions, List.append_assoc]
  names := by
    rw [List.map_append, List.nodup_append]
    refine ⟨h.names, h'.names, ?_⟩
    rintro _ hf _ hg rfl
    obtain ⟨f, hf, hname⟩ := List.mem_map.mp hf
    obtain ⟨g, hg, hname'⟩ := List.mem_map.mp hg
    exact (h'.fresh g hg).1 (hname' ▸ hname ▸ (h.fresh f hf).2)
  fresh := by
    rw [List.forall_mem_append]
    exact ⟨fun f hf ↦ ⟨(h.fresh f hf).1, hnames' (h.fresh f hf).2⟩,
      fun g hg ↦ ⟨fun hname ↦ (h'.fresh g hg).1 (hnames hname), (h'.fresh g hg).2⟩⟩
  calls := h.calls.append (h'.calls.mono h.signatures)
  signatures g hg := by
    rw [Function.giving, Set.mem_ofPred_eq, List.map_append, List.mem_append]
    rcases h'.signatures hg with hg | hg
    · exact (h.signatures hg).imp_right .inl
    · exact .inr (.inr hg)
  main f hf := by
    rcases h'.main f hf with hf | hnew
    · exact (h.main f hf).imp_right (And.imp_right fun hcalls g hg ↦ hgiven (hcalls g hg))
    · exact .inr hnew

theorem named (h : Defines given t fs given₁ t₁) (hnames : t.names ⊆ t₁.names)
    (hgiven : ∀ g ∈ given, g.name ∈ t.names) : ∀ g ∈ given₁, g.name ∈ t₁.names := by
  intro g hg
  rcases h.signatures hg with hg | hg
  · exact hnames (hgiven g hg)
  · obtain ⟨f, hf, rfl⟩ := List.mem_map.mp hg
    exact (h.fresh f hf).2

/-- Names that are taken first are no names of functions. -/
theorem of_reserve {names : List String} (h : Defines given (t.reserve names) fs given₁ t₁) :
    Defines given t fs given₁ t₁ :=
  { h with
    fresh := fun f hf ↦ ⟨fun hname ↦ (h.fresh f hf).1 (List.mem_append_right _ hname),
      (h.fresh f hf).2⟩ }

/-- A function is defined, with those that its body has defined before it. -/
theorem define {names : List String} (h : Defines given (t.reserve names) fs given₁ t₁)
    (hname : f.signature.name ∈ names) (hnew : f.signature.name ∉ t.names)
    (hnames : (t.reserve names).names ⊆ t₁.names)
    (hcalls : ∀ g, CallsWithin f.code g → g ∈ given₁) :
    Defines given t (fs ++ [f]) (insert f.signature given₁)
      { t₁ with functions := t₁.functions ++ [f] } where
  functions := by rw [h.functions, List.append_assoc]; rfl
  names := by
    rw [List.map_append, List.map_singleton, List.nodup_append]
    refine ⟨h.names, by simp, ?_⟩
    rintro _ hg _ hf rfl
    obtain ⟨g, hg, hsame⟩ := List.mem_map.mp hg
    refine (h.fresh g hg).1 (List.mem_append_left _ ?_)
    rw [hsame, List.mem_singleton.mp hf]
    exact hname
  fresh := by
    rw [List.forall_mem_append]
    refine ⟨h.of_reserve.fresh, fun g hg ↦ ?_⟩
    rw [List.mem_singleton.mp hg]
    exact ⟨hnew, hnames (List.mem_append_left _ hname)⟩
  calls := h.calls.snoc fun g hg ↦ h.signatures (hcalls g hg)
  signatures := by
    rintro g (rfl | hg)
    · exact .inr (by simp)
    · refine (h.signatures hg).imp_right fun hg ↦ ?_
      rw [List.map_append]
      exact List.mem_append_left _ hg
  main g hg := (h.main g hg).imp_right (And.imp_right fun hall x hx ↦ .inr (hall x hx))

/-- A main function is defined, with the functions that its body has defined. -/
theorem setMain (h : Defines given t fs given₁ t₁) (hsignature : f.signature = ⟨"main", [], none⟩)
    (hcalls : ∀ g, CallsWithin f.code g → g ∈ given₁) :
    Defines given t fs given₁ { t₁ with main := some f } :=
  { h with main := fun _ hg ↦ .inr (Option.some.inj hg ▸ ⟨hsignature, hcalls⟩) }

end Defines

theorem Arguments.signatures {types : List ValueType} {s s' : ScopeDraft} {vs : List Variable}
    (h : Arguments types R s vs R' s') : R'.signatures = R.signatures := by
  induction h with
  | nil => rfl
  | cons _ _ _ _ ih => exact ih

@[simp] theorem Tables.reserve_reserve (names names' : List String) (t : Tables) :
    (t.reserve names').reserve names = t.reserve (names ++ names') := by
  simp [reserve]

/-- When the body of a function begins, its name is taken, and those of its arguments. -/
theorem Arguments.reserves {s : StageDraft} {name : String} {q : NamePool}
    {params : List ValueType} {result : Option ValueType} {args : List Variable}
    {start : ScopeDraft}
    (h : Arguments params R ((s.withNames q).openedFunction result) args R' start)
    (hname : s.resources.names.Gives name q) :
    ∃ names, start.stage.tables = s.tables.reserve (names ++ [name]) := by
  obtain ⟨names, htables, -⟩ := h.tables
  refine ⟨names, ?_⟩
  rw [htables, StageDraft.tables_openedFunction, StageDraft.tables_withNames hname,
    Tables.reserve_reserve]

theorem ScopeDraft.tables_openedBlock {s : ScopeDraft} {name : String} {q : NamePool}
    (hname : s.stage.resources.names.Gives name q) :
    (s.openedBlock name q).scope.stage.tables = s.stage.tables.reserve [name] :=
  StageDraft.tables_withNames hname

/-! ## All operations -/

theorem Evolves.ne_program {d d' : Draft} (h : Evolves R d R' d') (hd : ∀ p, d ≠ .program p)
    (p : Program) : d' ≠ .program p := by
  rintro rfl
  have hext := h.extends.2
  cases d with
  | program q => exact hd q rfl
  | _ => exact hext

/-- Whatever is done in a stage, some functions were defined. -/
theorem Evolves.defines {d d' : Draft} (h : Evolves R d R' d') (hd : d.Accepted R)
    (hstage : ∀ p, d ≠ .program p) :
    ∃ fs, Defines R.signatures d.tables fs R'.signatures d'.tables := by
  induction h with
  | refl => exact ⟨[], .nil rfl rfl subset_rfl⟩
  | trans h₁ h₂ ih₁ ih₂ =>
    obtain ⟨fs, hfs⟩ := ih₁ hd hstage
    obtain ⟨gs, hgs⟩ := ih₂ (h₁.accepted hd) (h₁.ne_program hstage)
    exact ⟨fs ++ gs, hfs.append hgs h₁.keeps.names.subset h₂.keeps.names.subset
      h₂.extends.1.2.2.1⟩
  | name | uniform | interStage | armature | morphWeights => exact ⟨[], .nil rfl rfl subset_rfl⟩
  | programResources | finished | abandonedStage => exact absurd rfl (hstage _)
  | stageResources _ ih =>
    obtain ⟨fs, hfs⟩ := ih trivial (by simp)
    obtain rfl : fs = [] := hfs.functions.symm
    exact ⟨[], .nil rfl rfl fun g hg ↦ (hfs.signatures hg).resolve_right List.not_mem_nil⟩
  | scopeStage _ ih => exact ih hd.stage (by simp)
  | blockScope _ ih => exact ih hd.scope (by simp)
  | stageAttribute | stageOutput | stageBuiltin => exact ⟨[], .nil rfl rfl subset_rfl⟩
  | @function R R₁ R₂ s name q params result args start body value hname hargs hbody _ hvalue
      hreturn ih =>
    have hnamed : (s.withNames q).finish.Accepted (R.addBody name) :=
      Stage.Accepted.mono hd (Registry.le_addBody R name)
    have hstart := hargs.accepted (.openedFunction hnamed result)
    obtain ⟨fs, hfs⟩ := ih hstart (by simp)
    have hfunction := StageDraft.accepted_function (hbody.accepted hstart)
      (hargs.extends.2.trans hbody.extends.2) (fun e he ↦ (hvalue e he).known) hreturn params args
    have hkeeps : start.stage.tables.Keeps body.stage.tables := hbody.keeps
    obtain ⟨names, htables⟩ := hargs.reserves hname
    simp only [Draft.tables, hargs.signatures, htables] at hfs
    rw [htables] at hkeeps
    exact ⟨_, hfs.define (by simp) hname.notMem hkeeps.names.subset
      fun g ↦ hfunction.mem_signatures⟩
  | @main R R' s body _ hbody _ ih =>
    have hopened : (s.openedFunction none).Accepted R := .openedFunction hd none
    obtain ⟨fs, hfs⟩ := ih hopened (by simp)
    have hnone : ∀ e ∈ (none : Option Expr), e.Known R' := fun e he ↦ by cases he
    have hreturn : StageDraft.returnCheck "main" none none body.region = .ok () := rfl
    have hmain := StageDraft.accepted_function (hbody.accepted hopened) hbody.extends.2 hnone
      hreturn [] []
    exact ⟨fs, hfs.setMain rfl fun g ↦ hmain.mem_signatures⟩
  | @abandonedFunction R R₁ R₂ s params result args start body hargs _ ih =>
    obtain ⟨fs, hfs⟩ := ih (hargs.accepted (.openedFunction hd result)) (by simp)
    obtain ⟨names, htables, -⟩ := hargs.tables
    simp only [Draft.tables, hargs.signatures, htables] at hfs
    exact ⟨fs, hfs.of_reserve⟩
  | declare | declareUnseen | add | blockInput | blockOutput => exact ⟨[], .nil rfl rfl subset_rfl⟩
  | branch _ _ _ _ ih | loopWhile _ _ _ _ ih => exact ih (.opened hd.stage _) (by simp)
  | elseIf _ _ _ _ ih | otherwise _ _ ih =>
    simp only [Draft.tables, ScopeDraft.stage_extendConditional]
    exact ih (.opened hd.stage _) (by simp)
  | abandoned _ ih => exact ih (.opened hd.stage _) (by simp)
  | loopFor _ hmake _ _ _ _ _ _ _ _ ih | abandonedLoop hmake _ _ _ ih =>
    obtain ⟨fs, hfs⟩ := ih ((ScopeDraft.Accepted.opened hd.stage .loop).introduce _ _) (by simp)
    simp only [Draft.tables, ScopeDraft.tables_introduce hmake] at hfs
    exact ⟨fs, hfs.of_reserve⟩
  | block hname _ _ _ ih | abandonedBlock hname _ ih =>
    obtain ⟨fs, hfs⟩ := ih (BlockDraft.accepted_opened hd _ _) (by simp)
    simp only [Draft.tables, ScopeDraft.tables_openedBlock hname] at hfs
    exact ⟨fs, hfs.of_reserve⟩

/-- The names of all functions that clients are given are taken, also of those in stages that were
given up. -/
theorem Evolves.named {d d' : Draft} (h : Evolves R d R' d') {p : Program} (hp : d = .program p)
    (hgiven : ∀ g ∈ R.signatures, g.name ∈ d.tables.names) :
    ∀ g ∈ R'.signatures, g.name ∈ d'.tables.names := by
  induction h generalizing p with
  | refl => exact hgiven
  | @trans R R₁ R₂ d d₁ d₂ h₁ _ ih₁ ih₂ =>
    subst hp
    have hext := h₁.extends.2
    cases d₁ with
    | program p₁ => exact ih₂ rfl (ih₁ rfl hgiven)
    | _ => exact hext.elim
  | programResources h =>
    obtain ⟨fs, hfs⟩ := h.defines trivial (by simp)
    exact hfs.named h.keeps.names.subset hgiven
  | finished _ h =>
    obtain ⟨fs, hfs⟩ := h.defines (StageDraft.accepted_start _ _) (by simp)
    simp only [Draft.tables, Program.resources_setStage]
    exact hfs.named h.keeps.names.subset hgiven
  | abandonedStage _ h =>
    obtain ⟨fs, hfs⟩ := h.defines (StageDraft.accepted_start _ _) (by simp)
    exact hfs.named h.keeps.names.subset hgiven
  | _ => cases hp

end ShaderGraph
