import ShaderGraph.Proofs.Calls
import ShaderGraph.Proofs.Draft.InterStage
import ShaderGraph.Proofs.Kit.Forwarding
import ShaderGraph.Proofs.UnlitSafety

/-!
# The stages of unlit programs agree

The vertex stage of an unlit program passes on, once and unchanged, every
attribute that the color sources need, and the fragment stage reads nothing
else from it. An inter-stage value is shared by name in both stages but with
its own type in each, so where the types differ there is no program. Besides,
each stage writes its result at its end and nowhere else.
-/

namespace ShaderGraph

variable {σ : Type} {o : Outlets}

/-- An inter-stage value that a fragment stage reads anywhere is in the table of the program. -/
theorem Program.Built.mem_interStage_of_read {p : Program} (hp : p.Built) {stage : Stage}
    (hstage : stage ∈ p.stages) (hfragment : stage.kind = .fragment) {f : Function}
    (hf : f ∈ stage.definitions) {v : Variable} (hread : ReadsWithin f.code v)
    (hkind : v.kind = .interStage) : v ∈ p.resources.interStage := by
  obtain ⟨name, signatures, R, hev⟩ := hp.evolves
  have hinvariant : p.Invariant R := hev.invariant (Program.invariant_new name signatures False)
  have hhoused : ∀ s ∈ p.stages, s.Housed := hev.housed fun s hs ↦ by cases hs
  obtain ⟨hfunctions, hmain⟩ := hinvariant.stages stage hstage
  have hscoped : f.WellScoped R.vars stage.kind :=
    (List.mem_append.mp hf).elim (hfunctions f) fun hf ↦ hmain f (Option.mem_toList.mp hf)
  obtain ⟨path, t, ht, hread⟩ := hread
  have hchain := hscoped.code.inner ((hhoused stage hstage).id_of_mem hf) ht
  have hplaced := hscoped.code.placed ht
  obtain ⟨hv, hreach⟩ := hplaced.inReach_of_mem_readVariables hread
  refine hev.mem_interStage hv hkind fun hscope ↦ ?_
  have hsame : StageKind.vertex = stage.kind := by
    rcases hreach with hreach | ⟨body, hbody, -, hreach⟩
    · exact hreach.stage_eq hchain hscope
    · have hlow : ∀ i ∈ body.id :: (path ++ [f.body.id]), 3 ≤ i.index :=
        List.forall_mem_cons.mpr ⟨(hplaced.fresh body hbody).1, hchain⟩
      exact hreach.stage_eq hlow hscope
  rw [hfragment] at hsame
  cases hsame

/-! ## The vertex stage -/

/-- An inter-stage value takes over a vertex attribute that it is named after. In the main function
it is assigned once, from the attribute. -/
structure Stage.Supplies (vertex : Stage) (main : Function) (v a : Variable) : Prop where
  source : a ∈ vertex.attributes ∧ a.kind = .vertexAttribute
  value : v.kind = .interStage
  name : v.name = interStageName a.name
  type : v.type = a.type
  written : main.body.writers v = [.assign (.var v) (.var a)]

namespace Passage

variable {ps : List Passage} {p : Passage} {v : Variable}

theorem filter_eq_singleton (h : (ps.map value).Nodup) (hp : p ∈ ps) :
    ps.filter (p.value = ·.value) = [p] := by
  induction ps with
  | nil => cases hp
  | cons q rest ih =>
    rw [List.map_cons, List.nodup_cons] at h
    rcases List.mem_cons.mp hp with rfl | hp
    · have hrest : rest.filter (p.value = ·.value) = [] := by
        refine List.filter_eq_nil_iff.mpr fun q hq heq ↦ h.1 ?_
        exact List.mem_map.mpr ⟨q, hq, (of_decide_eq_true heq).symm⟩
      rw [List.filter_cons_of_pos (by simp), hrest]
    · have hne : p.value ≠ q.value := fun heq ↦ h.1 (heq ▸ List.mem_map_of_mem hp)
      rw [List.filter_cons_of_neg (by simpa using hne), ih h.2 hp]

/-- Among statements that pass attributes on, those that write a variable. -/
theorem filter_stmt (ps : List Passage) (v : Variable) :
    (ps.map stmt).filter (v ∈ ·.writtenVariables) = (ps.filter (v = ·.value)).map stmt := by
  have hwritten (q : Passage) : q.stmt.writtenVariables = [q.value] := rfl
  rw [List.filter_map]
  simp only [Function.comp_def, hwritten, List.mem_singleton]

/-- What writes a variable in a block that only passes attributes on. -/
theorem writersIn_block {b : Block} (h : b.outputs = [] ∧ b.body.statements = ps.map stmt)
    (v : Variable) : Stmt.writersIn [.block b] v = (ps.filter (v = ·.value)).map stmt := by
  obtain ⟨houtputs, hstatements⟩ := h
  rw [Stmt.writersIn_block houtputs, hstatements, filter_stmt]
  intro t ht
  rw [hstatements] at ht
  obtain ⟨q, -, rfl⟩ := List.mem_map.mp ht
  rfl

end Passage

namespace UnlitConfig

theorem ends_vertexMain (cfg : UnlitConfig) {viewProj model position outPosition : Variable}
    {normal tangent : Option Variable} (hout : outPosition.kind = .builtIn .position)
    {s : ScopeDraft} (hs : s.Inward o) (hempty : o.interStage = []) :
    (cfg.vertexMain viewProj model position normal tangent outPosition :
      Build σ ScopeDraft Unit).Ends s fun _ s' ↦
        ∃ ps, ColorSource.Covers cfg.color s'.stage.attributes ps ∧
          s'.stage.outlets = { o with interStage := ps.map Passage.value } ∧
          (∀ p ∈ ps, s'.region.writers p.value = [p.stmt]) ∧
            s'.region.WritesLast outPosition := by
  refine (VertexTransform.keeps_block _ s hs).bind fun world s₁ h₁ ↦ ?_
  obtain ⟨hs₁, -⟩ := h₁
  refine (ColorSource.ends_vertexBlock cfg.color hs₁ hempty).bind fun _ s₂ h₂ ↦ ?_
  obtain ⟨ps, b, hcovers, houtlets, hb, hstatements⟩ := h₂
  refine (ScopeDraft.ends_assign s₂ _ _).mono fun _ s₃ h₃ ↦ ?_
  subst h₃
  have hbefore {v : Variable} (hv : ¬v.Inner) :
      Stmt.writersIn s₂.region.statements v = (ps.filter (v = ·.value)).map Passage.stmt := by
    rw [hstatements, Stmt.writersIn_append, Stmt.writersIn_of_inward hs₁.statements hv,
      Passage.writersIn_block hb, List.nil_append]
  refine ⟨ps, hcovers, houtlets, fun p hp ↦ ?_, Region.writesLast_of_append rfl ?_⟩
  · have hvalue := (hcovers.sound p hp).value
    have hne : p.value ≠ outPosition := fun heq ↦ by
      rw [heq, hout] at hvalue
      cases hvalue
    have hnodup : (ps.map Passage.value).Nodup :=
      .of_map Variable.name (by simpa [Function.comp_def] using hcovers.names)
    refine (Stmt.writersIn_append _ _ _).trans ?_
    rw [hbefore (Variable.not_inner hvalue (by decide)), Passage.filter_eq_singleton hnodup hp,
      Stmt.writersIn_assign, if_neg hne]
    rfl
  · rw [hbefore (Variable.not_inner hout (by decide)), List.map_eq_nil_iff, List.filter_eq_nil_iff]
    intro p hp heq
    have hvalue := (hcovers.sound p hp).value
    rw [← of_decide_eq_true heq, hout] at hvalue
    cases hvalue

theorem keeps_optionalAttribute (wanted : Bool) (name : String) (type : ValueType) :
    (optionalAttribute wanted name type : Build σ StageDraft (Option Variable)).Keeps
      (StageDraft.Shows o) fun _ ↦ True := by
  cases wanted with
  | false => exact .pure trivial
  | true =>
    rw [optionalAttribute, if_pos rfl, map_eq_pure_bind]
    exact (StageDraft.keeps_declareAttribute name type _).bind fun _ _ ↦ .pure trivial

/-- A vertex stage with a main function, which passes attributes on and ends with the position. -/
structure VertexSide (cfg : UnlitConfig) (vertex : Stage) (main : Function) (ps : List Passage) :
    Prop where
  kind : vertex.kind = .vertex
  defined : vertex.main = some main
  functions : vertex.functions = []
  covers : ColorSource.Covers cfg.color vertex.attributes ps
  written : ∀ p ∈ ps, main.body.writers p.value = [p.stmt]
  position : ∃ out ∈ vertex.builtins, out.kind = .builtIn .position ∧ main.body.WritesLast out

theorem ends_vertexStage (cfg : UnlitConfig) {r : Resources} (hempty : r.interStage = []) :
    (cfg.vertexStage : Build σ StageDraft Unit).Ends (.start .vertex r) fun _ s ↦
      ∃ main ps, VertexSide cfg s.finish main ps ∧
        s.resources.interStage = ps.map Passage.value := by
  have hstart : (StageDraft.start .vertex r).Shows ⟨.vertex, r.interStage, [], [], []⟩ := rfl
  refine (StageDraft.keeps_declareUniform _ _ _ hstart).bind fun viewProj s₁ h₁ ↦ ?_
  refine (StageDraft.keeps_declareUniform _ _ s₁ h₁.1).bind fun model s₂ h₂ ↦ ?_
  refine (StageDraft.keeps_declareAttribute _ _ _ s₂ h₂.1).bind fun position s₃ h₃ ↦ ?_
  refine (keeps_optionalAttribute _ _ _ s₃ h₃.1).bind fun normal s₄ h₄ ↦ ?_
  refine (keeps_optionalAttribute _ _ _ s₄ h₄.1).bind fun tangent s₅ h₅ ↦ ?_
  refine (StageDraft.ends_declareBuiltin s₅ .position).bind fun out s₆ h₆ ↦ ?_
  obtain ⟨hkind, vs, hmem, houtlets⟩ := h₆
  rw [h₅.1] at houtlets
  have hopened : (s₆.openedFunction none).Inward ⟨.vertex, r.interStage, [], vs, []⟩ :=
    ⟨houtlets, List.forall_mem_nil _⟩
  refine StageDraft.ends_defineMain s₆
    ((cfg.ends_vertexMain hkind hopened hempty).mono fun _ t h ↦ ?_)
  obtain ⟨ps, hcovers, houtlets, hwritten, hlast⟩ := h
  have hbuiltins : t.stage.builtins = vs := congrArg Outlets.builtins houtlets
  have hmem : out ∈ t.stage.builtins := hbuiltins ▸ hmem
  exact ⟨_, ps, {
    kind := congrArg Outlets.kind houtlets
    defined := rfl
    functions := congrArg Outlets.functions houtlets
    covers := hcovers
    written := hwritten
    position := ⟨out, hmem, hkind, hlast⟩ }, congrArg Outlets.interStage houtlets⟩

/-! ## The fragment stage -/

theorem keeps_applyAlpha (alpha : AlphaMode) {color : Variable} (hcolor : color.Inner) :
    (applyAlpha alpha color : Build σ ScopeDraft Unit).Keeps (ScopeDraft.Inward o)
      fun _ ↦ True := by
  cases alpha with
  | blend => exact .pure trivial
  | solid => exact ScopeDraft.keeps_assign _ rfl hcolor
  | mask cutoff => exact ScopeDraft.keeps_branch _ ScopeDraft.keeps_discard

theorem keeps_applyGamma (gamma : Option Single) {rgb : Variable} (hrgb : rgb.Inner) :
    (applyGamma rgb gamma : Build σ ScopeDraft Unit).Keeps (ScopeDraft.Inward o)
      fun _ ↦ True := by
  cases gamma with
  | none => exact .pure trivial
  | some gamma => exact ScopeDraft.keeps_assign _ rfl hrgb

theorem ends_fragmentMain (cfg : UnlitConfig) {out : Variable} (hout : ¬out.Inner)
    (hnames : ∀ a ∈ ColorSource.asked cfg.color, ∃ v ∈ o.interStage, v.name = interStageName a.1)
    {s : ScopeDraft} (hs : s.Inward o) :
    (cfg.fragmentMain out : Build σ ScopeDraft Unit).Ends s fun _ s' ↦
      s'.stage.outlets = o ∧ s'.region.WritesLast out ∧
        ∀ a ∈ ColorSource.asked cfg.color, ∃ v ∈ o.interStage, v.Brings a := by
  have hsources : ∀ source ∈ cfg.color, ∀ a ∈ source.kind.attribute?,
      ∃ v ∈ o.interStage, v.name = interStageName a.1 := fun source hsource a ha ↦
    hnames a (List.mem_filterMap.mpr ⟨source, hsource, ha⟩)
  refine (ColorSource.keeps_block hsources s hs).bind fun mixed s₁ h₁ ↦ ?_
  obtain ⟨hs₁, hbrings⟩ := h₁
  refine (ScopeDraft.keeps_bind _ s₁ hs₁).bind fun color s₂ h₂ ↦ ?_
  obtain ⟨hs₂, hcolor⟩ := h₂
  refine (keeps_applyAlpha cfg.alpha hcolor s₂ hs₂).bind fun _ s₃ h₃ ↦ ?_
  refine (ScopeDraft.keeps_bind _ s₃ h₃.1).bind fun rgb s₄ h₄ ↦ ?_
  obtain ⟨hs₄, hrgb⟩ := h₄
  -- What comes after the condition stands in both of its branches.
  have hend {s' : ScopeDraft} (hs' : s'.Inward o) :
      (do applyGamma rgb cfg.colorSpace.gamma?
          ScopeDraft.assign (.var out) ((Expr.var rgb).extend ((Expr.var color).floatPart .w)) :
        Build σ ScopeDraft Unit).Ends s' fun _ s'' ↦ s''.stage.outlets = o ∧
          s''.region.WritesLast out ∧
            ∀ a ∈ ColorSource.asked cfg.color, ∃ v ∈ o.interStage, v.Brings a := by
    refine (keeps_applyGamma _ hrgb s' hs').bind fun _ s₅ h₅ ↦ ?_
    refine (ScopeDraft.ends_assign s₅ _ _).mono fun _ s₆ h₆ ↦ ?_
    subst h₆
    have hbefore := Stmt.writersIn_of_inward h₅.1.statements hout
    refine ⟨h₅.1.stage, Region.writesLast_of_append rfl hbefore, fun a ha ↦ ?_⟩
    obtain ⟨source, hsource, ha⟩ := List.mem_filterMap.mp ha
    exact hbrings source hsource a ha
  split
  · exact (ScopeDraft.keeps_assign _ rfl hrgb s₄ hs₄).bind fun _ s₅ h₅ ↦ hend h₅.1
  · exact hend hs₄

/-- A fragment stage with a main function, which ends with the color. -/
structure FragmentSide (fragment : Stage) (main : Function) : Prop where
  kind : fragment.kind = .fragment
  defined : fragment.main = some main
  functions : fragment.functions = []
  color : ∃ out ∈ fragment.outputs, out.name = "fragColor" ∧ main.body.WritesLast out

theorem ends_fragmentStage (cfg : UnlitConfig) {r : Resources}
    (hnames : ∀ a ∈ ColorSource.asked cfg.color,
      ∃ v ∈ r.interStage, v.name = interStageName a.1) :
    (cfg.fragmentStage : Build σ StageDraft Unit).Ends (.start .fragment r) fun _ s ↦
      (∃ main, FragmentSide s.finish main) ∧ s.resources.interStage = r.interStage ∧
        ∀ a ∈ ColorSource.asked cfg.color, ∃ v ∈ r.interStage, v.Brings a := by
  refine (StageDraft.ends_declareOutput _ _ _).bind fun out s₁ h₁ ↦ ?_
  obtain ⟨⟨hname, -, hkind⟩, houtlets⟩ := h₁
  have hopened : (s₁.openedFunction none).Inward ⟨.fragment, r.interStage, [out], [], []⟩ :=
    ⟨houtlets, List.forall_mem_nil _⟩
  refine StageDraft.ends_defineMain s₁ ((cfg.ends_fragmentMain
    (Variable.not_inner hkind (by decide)) hnames hopened).mono fun _ t h ↦ ?_)
  obtain ⟨houtlets, hlast, hbrings⟩ := h
  have houtputs : t.stage.outputs = [out] := congrArg Outlets.outputs houtlets
  have hmem : out ∈ t.stage.outputs := houtputs ▸ List.mem_singleton_self out
  exact ⟨⟨_, {
    kind := congrArg Outlets.kind houtlets
    defined := rfl
    functions := congrArg Outlets.functions houtlets
    color := ⟨out, hmem, hname, hlast⟩ }⟩,
    congrArg Outlets.interStage houtlets, hbrings⟩

/-! ## Programs -/

theorem ends_build (cfg : UnlitConfig) :
    (cfg.build : Build σ Program Unit).Ends (.new "unlit") fun _ p ↦
      ∃ vertex vertexMain fragment fragmentMain ps,
        (p.vertex = some vertex ∧ VertexSide cfg vertex vertexMain ps) ∧
          (p.fragment = some fragment ∧ FragmentSide fragment fragmentMain) ∧
            p.resources.interStage = ps.map Passage.value ∧
              ∀ a ∈ ColorSource.asked cfg.color, ∃ v ∈ p.resources.interStage, v.Brings a := by
  refine Build.Yields.bind (P := fun _ p ↦ ∃ vertex main ps, (p.vertex = some vertex ∧
    VertexSide cfg vertex main ps) ∧ p.resources.interStage = ps.map Passage.value)
    (Program.ends_buildStage _ ((cfg.ends_vertexStage rfl).mono fun _ s h ↦ ?_))
    fun _ p₁ h₁ ↦ Program.ends_buildStage _ ?_
  · obtain ⟨main, ps, hside, hinterStage⟩ := h
    refine ⟨s.finish, main, ps, ⟨?_, hside⟩, ?_⟩
    · rw [Program.setStage, hside.kind]
    · rw [Program.resources_setStage, hinterStage]
  · obtain ⟨vertex, vertexMain, ps, ⟨hvertex, hside⟩, hinterStage⟩ := h₁
    have hnames : ∀ a ∈ ColorSource.asked cfg.color,
        ∃ v ∈ p₁.resources.interStage, v.name = interStageName a.1 := by
      intro a ha
      obtain ⟨p, hp, hname⟩ := hside.covers.complete a ha
      refine ⟨p.value, hinterStage ▸ List.mem_map_of_mem hp, ?_⟩
      rw [(hside.covers.sound p hp).brings.1, Passage.carried, hname]
    refine (cfg.ends_fragmentStage hnames).mono fun _ s h ↦ ?_
    obtain ⟨⟨main, hfragment⟩, hsame, hbrings⟩ := h
    refine ⟨vertex, vertexMain, s.finish, main, ps, ⟨?_, hside⟩, ⟨?_, hfragment⟩, ?_, ?_⟩
    · rw [Program.setStage, hfragment.kind]
      exact hvertex
    · rw [Program.setStage, hfragment.kind]
    · rw [Program.resources_setStage, hsame, hinterStage]
    · rw [Program.resources_setStage, hsame]
      exact hbrings

/-- Two stages of a program agree on what is between them. -/
structure Agreement (cfg : UnlitConfig) (p : Program) (vertex fragment : Stage)
    (vertexMain fragmentMain : Function) : Prop where
  vertexStage : p.vertex = some vertex ∧ vertex.main = some vertexMain ∧ vertex.functions = []
  fragmentStage :
    p.fragment = some fragment ∧ fragment.main = some fragmentMain ∧ fragment.functions = []
  /-- Inter-stage values are assigned once each, from the attributes they are named after. -/
  supplied : ∀ v ∈ p.resources.interStage, ∃ a, vertex.Supplies vertexMain v a
  /-- No other ones are read. -/
  read : ∀ v, ReadsWithin fragmentMain.code v → v.kind = .interStage → v ∈ p.resources.interStage
  names : (p.resources.interStage.map Variable.name).Nodup
  needed : ∀ a, (∃ v ∈ p.resources.interStage, v.Brings a) ↔ a ∈ ColorSource.asked cfg.color
  position : ∃ out ∈ vertex.builtins, out.kind = .builtIn .position ∧ vertexMain.body.WritesLast out
  color : ∃ out ∈ fragment.outputs, out.name = "fragColor" ∧ fragmentMain.body.WritesLast out

/-- Colors from one attribute twice, and from two textures at the same coordinates. -/
def repeating : UnlitConfig where
  vertex := .plain
  color := [⟨.vertexColor "attrib_colors", .set⟩, ⟨.texture "uMap" "attrib_uv", .multiply⟩,
    ⟨.vertexColor "attrib_colors", .add⟩, ⟨.texture "uDetail" "attrib_uv", .multiply⟩]
  alpha := .solid
  premultiplied := true
  colorSpace := .asIs
  normals := false

/-- The stages of an unlit program agree: the vertex stage assigns each inter-stage value once and
from its attribute, the fragment stage reads no others, and there is one for each attribute that
the color sources need. Both stages write their results once, at the end. -/
theorem stages_agree {cfg : UnlitConfig} {p : Program} (h : cfg.program = .ok p) :
    ∃ vertex fragment vertexMain fragmentMain,
      cfg.Agreement p vertex fragment vertexMain fragmentMain := by
  have hrun := ends_build cfg ()
  have hbuild : ∃ c, cfg.build (.new "unlit", ()) = .ok () (p, c) := by
    unfold program at h
    split at h
    · next hbuild => exact ⟨_, Except.ok.inj h ▸ hbuild⟩
    · cases h
  obtain ⟨c, hbuild⟩ := hbuild
  rw [hbuild] at hrun
  obtain ⟨vertex, vertexMain, fragment, fragmentMain, ps, ⟨hvertex, hside⟩,
    ⟨hfragment, hfragmentSide⟩, hinterStage, hbrings⟩ := hrun
  have hpassage : ∀ v ∈ p.resources.interStage, ∃ q ∈ ps, q.value = v := fun v hv ↦
    List.mem_map.mp (hinterStage ▸ hv)
  refine ⟨vertex, fragment, vertexMain, fragmentMain, {
    vertexStage := ⟨hvertex, hside.defined, hside.functions⟩
    fragmentStage := ⟨hfragment, hfragmentSide.defined, hfragmentSide.functions⟩
    supplied := fun v hv ↦ ?_
    read := fun v hread hkind ↦ ?_
    names := ?_
    needed := fun a ↦ ⟨fun ⟨v, hv, hname, htype⟩ ↦ ?_, hbrings a⟩
    position := hside.position
    color := hfragmentSide.color }⟩
  · obtain ⟨q, hq, rfl⟩ := hpassage v hv
    have hsound := hside.covers.sound q hq
    exact ⟨q.source, ⟨hsound.mem, hsound.source⟩, hsound.value, hsound.brings.1, hsound.brings.2,
      hside.written q hq⟩
  · have hstage : fragment ∈ p.stages := by simp [Program.stages, hfragment]
    have hmain : fragmentMain ∈ fragment.definitions := by
      simp [Stage.definitions, hfragmentSide.defined]
    exact Program.Built.mem_interStage_of_read (.unlit h) hstage hfragmentSide.kind hmain hread
      hkind
  · rw [hinterStage, List.map_map]
    exact hside.covers.names
  · obtain ⟨q, hq, rfl⟩ := hpassage v hv
    have hbrings := (hside.covers.sound q hq).brings
    have hcarried : q.carried = a := Prod.ext
      (interStageName_injective (hbrings.1.symm.trans hname)) (hbrings.2.symm.trans htype)
    exact hcarried ▸ hside.covers.carried q hq

theorem stages_agree_repeating : ∃ p vertex fragment vertexMain fragmentMain,
    repeating.program = .ok p ∧ (ColorSource.asked repeating.color).length = 4 ∧
      p.resources.interStage.map Variable.name = ["v_attrib_colors", "v_attrib_uv"] ∧
        repeating.Agreement p vertex fragment vertexMain fragmentMain := by
  have hnames : (repeating.program.toOption.map fun p ↦ p.resources.interStage.map Variable.name) =
      some ["v_attrib_colors", "v_attrib_uv"] := by decide +kernel
  cases hp : repeating.program with
  | error e =>
    rw [hp] at hnames
    cases hnames
  | ok p =>
    rw [hp] at hnames
    obtain ⟨vertex, fragment, vertexMain, fragmentMain, hagree⟩ := stages_agree hp
    exact ⟨p, vertex, fragment, vertexMain, fragmentMain, rfl, rfl, Option.some.inj hnames, hagree⟩

-- One attribute cannot be both a color and coordinates.
example : ({ repeating with color := [⟨.vertexColor "attrib_uv", .set⟩,
    ⟨.texture "uMap" "attrib_uv", .multiply⟩] }).error? = some (.nameTaken "v_attrib_uv") := by
  decide +kernel

end UnlitConfig

end ShaderGraph
