import ShaderGraph.Proofs.Uniforms.Feed

/-!
# Feeding data blocks

Draws come one after the other, with as many joints and weights as they like.
Each float of a data block is in the end what the latest draw with something
for it has brought, and all other floats of the store stay as they were made.
-/

namespace ShaderGraph

/-- What the latest of the draws with something to be found brings. -/
def DrawCommand.latest {α : Type} (f : DrawCommand → Option α) (draws : List DrawCommand) :
    Option α :=
  (draws.filterMap f).getLast?

namespace Contents

variable {bs : List DataBlock} {b : DataBlock} {cmd : DrawCommand} {v : Variable} {k : Nat}

/-- Without anything for a float the float stays. -/
theorem foldl_draw_of_none (h : ∀ b ∈ bs, b.float? cmd v k = none) (g : Contents) :
    bs.foldl (draw cmd) g v k = g v k := by
  induction bs generalizing g with
  | nil => rfl
  | cons b rest ih =>
    rw [List.foldl_cons, ih fun c hc ↦ h c (List.mem_cons_of_mem b hc)]
    simp [draw, h b List.mem_cons_self]

/-- If only one data block has anything for a float, it is what that block has. -/
theorem foldl_draw_of_mem (hbs : bs.Nodup) (hb : b ∈ bs)
    (hother : ∀ c ∈ bs, c ≠ b → c.float? cmd v k = none) (g : Contents) :
    bs.foldl (draw cmd) g v k = (b.float? cmd v k).getD (g v k) := by
  obtain ⟨before, after, rfl⟩ := List.append_of_mem hb
  obtain ⟨-, hafter, hdisjoint⟩ := List.nodup_append.mp hbs
  have hbefore : ∀ c ∈ before, c.float? cmd v k = none := fun c hc ↦
    hother c (by simp [hc]) (hdisjoint c hc b (by simp))
  have hafter : ∀ c ∈ after, c.float? cmd v k = none := fun c hc ↦
    hother c (by simp [hc]) fun heq ↦ (List.nodup_cons.mp hafter).1 (heq ▸ hc)
  rw [List.foldl_append, List.foldl_cons, foldl_draw_of_none hafter, draw,
    foldl_draw_of_none hbefore]

/-- A float to which every draw gives what it has for it is what the latest draw gave. -/
theorem foldl_latest {f : DrawCommand → Option Single} {step : Contents → DrawCommand → Contents}
    (h : ∀ g cmd, step g cmd v k = (f cmd).getD (g v k)) (draws : List DrawCommand)
    (g : Contents) : draws.foldl step g v k = (DrawCommand.latest f draws).getD (g v k) := by
  induction draws using List.reverseRecOn with
  | nil => rfl
  | append_singleton draws cmd ih =>
    rw [List.foldl_concat, h, ih, DrawCommand.latest, DrawCommand.latest, List.filterMap_append]
    cases hcmd : f cmd <;> simp [hcmd]

end Contents

namespace Resources.Registered

variable {r : Resources} {b c : DataBlock} {kind kind' : DataKind} {v : Variable} {k : Nat}

theorem name_mem (h : r.Registered) (hb : r.dataBlock? kind = some b) (hv : v ∈ b.vars) :
    v.name ∈ b.uniforms.map Prod.fst := by
  rw [← h.uniforms kind b hb, List.map_map]
  exact List.mem_map_of_mem hv

/-- A uniform belongs to one data block at most. -/
theorem eq_of_mem_vars (h : r.Registered) (hb : r.dataBlock? kind = some b)
    (hc : r.dataBlock? kind' = some c) (hv : v ∈ b.vars) (hv' : v ∈ c.vars) : b = c := by
  have hname := h.name_mem hb hv
  have hname' := h.name_mem hc hv'
  have hkind := kind_of_dataBlock? hb
  have hkind' := kind_of_dataBlock? hc
  by_cases hsame : kind = kind'
  · subst hsame
    exact Option.some.inj (hb.symm.trans hc)
  · cases b <;> cases c <;>
      simp_all [DataBlock.kind, DataBlock.uniforms, ArmatureData.uniformName,
        MorphWeightData.nameA, MorphWeightData.nameB]

/-- What the draws have made of a float of a registered data block that is fed. -/
theorem latest_of_mem (h : r.Registered) (hb : r.dataBlock? kind = some b) (hfed : b.isFed = true)
    (hv : v ∈ b.vars) (draws : List DrawCommand) (g : Contents) :
    draws.foldl (fun g cmd ↦ r.listeners.foldl (Contents.draw cmd) g) g v k =
      (DrawCommand.latest (fun cmd ↦ b.float? cmd v k) draws).getD (g v k) := by
  have hmem : b ∈ r.listeners := (h.mem_listeners b).mpr ⟨kind_of_dataBlock? hb ▸ hb, hfed⟩
  refine Contents.foldl_latest (fun g cmd ↦ ?_) draws g
  refine Contents.foldl_draw_of_mem h.nodup hmem
    (fun c hc hne ↦ DataBlock.float?_of_notMem fun hv' ↦ ?_) g
  exact hne (h.eq_of_mem_vars ((h.mem_listeners c).mp hc).1 hb hv' hv)

theorem latest_of_notMem (h : r.Registered)
    (hv : ∀ kind b, r.dataBlock? kind = some b → v ∉ b.vars) (draws : List DrawCommand)
    (g : Contents) :
    draws.foldl (fun g cmd ↦ r.listeners.foldl (Contents.draw cmd) g) g v k = g v k := by
  have hnone (cmd : DrawCommand) : ∀ c ∈ r.listeners, c.float? cmd v k = none := fun c hc ↦
    DataBlock.float?_of_notMem (hv _ c ((h.mem_listeners c).mp hc).1)
  refine (Contents.foldl_latest (f := fun _ ↦ none) (fun g cmd ↦ ?_) draws g).trans ?_
  · exact Contents.foldl_draw_of_none (hnone cmd) g
  · simp [DrawCommand.latest]

end Resources.Registered

/-- The sixteen floats of a joint, given one by one. -/
theorem Joint.entries_of_latest {floats : Nat → Single} (draws : List DrawCommand) (i : Nat)
    (h : ∀ j < 16, floats j = (DrawCommand.latest
      (fun cmd ↦ (cmd.joint? i).map (·.entries.getD j .zero)) draws).getD .zero) :
    (List.range 16).map floats =
      (DrawCommand.latest (·.joint? i) draws).elim (List.replicate 16 .zero) Joint.entries := by
  have hlatest (j : Nat) : DrawCommand.latest (fun cmd ↦ (cmd.joint? i).map
      (·.entries.getD j .zero)) draws =
        (DrawCommand.latest (·.joint? i) draws).map (·.entries.getD j .zero) := by
    simp only [DrawCommand.latest, ← List.map_filterMap, List.getLast?_map]
  cases hlast : DrawCommand.latest (·.joint? i) draws with
  | none =>
    refine List.ext_getElem (by simp) fun j hj _ ↦ ?_
    rw [List.length_map, List.length_range] at hj
    rw [List.getElem_map, List.getElem_range, h j hj, hlatest, hlast]
    exact (List.getElem_replicate _).symm
  | some joint =>
    refine List.ext_getElem (by simp [joint.length_eq]) fun j hj hlt ↦ ?_
    rw [List.length_map, List.length_range] at hj
    rw [Option.elim_some] at hlt
    rw [List.getElem_map, List.getElem_range, h j hj, hlatest, hlast]
    simp [List.getElem?_eq_getElem hlt]

/-- A host makes a store for a program that was built, with some slots dropped, has the program
compiled for it, and then sends any signals. What slots there are stays. Every joint that there is
room for is the one of the latest draw with that many, and every weight the one of the latest draw
with that many; where no draw has that many, and everywhere else, the floats are still zero. -/
theorem Program.Built.fed_latest {p : Program} (hp : p.Built) (drops : List String)
    (signals : List Signal) :
    let r := p.resources
    let store := drops.foldl UniformStore.without (.ofUniforms r.uniforms)
    let start : HostState := ⟨store, (Feed.fresh.created r.listeners store).1⟩
    let draws := signals.filterMap Signal.draw?
    ∃ g : Contents, (signals.foldl (HostState.receive r.listeners) start).store =
        .holding (r.uniforms.filter (·.name ∉ drops)) g ∧
      (∀ data ∈ r.armature, data.joints.type.floats = data.maxBones * 16 ∧
        ∀ i < data.maxBones, (List.range 16).map (fun j ↦ g data.joints (i * 16 + j)) =
          (DrawCommand.latest (·.joint? i) draws).elim (List.replicate 16 .zero) Joint.entries) ∧
      (∀ data ∈ r.morphWeights,
        data.weightsA.type.floats = 4 ∧ data.weightsB.type.floats = 4 ∧
        ∀ k < 4, g data.weightsA k = (DrawCommand.latest (·.weight? k) draws).getD .zero ∧
          g data.weightsB k = (DrawCommand.latest (·.weight? (k + 4)) draws).getD .zero) ∧
      ∀ v ∈ r.uniforms, (∀ kind b, r.dataBlock? kind = some b → v ∉ b.vars) →
        ∀ k, g v k = .zero := by
  intro r store start draws
  have hr : r.Registered := hp.registered
  have hblock {b : DataBlock} (hb : b ∈ r.listeners) : r.dataBlock? b.kind = some b :=
    ((hr.mem_listeners b).mp hb).1
  have hnamed : ∀ b ∈ r.listeners, Feed.Named b := fun b hb ↦ hr.uniforms _ b (hblock hb)
  have hvars : ∀ b ∈ r.listeners, ∀ v ∈ b.vars, v ∈ r.uniforms := fun b hb ↦
    hr.vars _ b (hblock hb)
  have hstore : store = .holding (r.uniforms.filter (·.name ∉ drops)) fun _ _ ↦ .zero := by
    change drops.foldl UniformStore.without (.ofUniforms r.uniforms) = _
    rw [UniformStore.ofUniforms_eq_holding hr.distinct]
    exact UniformStore.foldl_without_holding hr.distinct _ drops
  have hsublist : (r.uniforms.filter (·.name ∉ drops)).Sublist r.uniforms := List.filter_sublist
  have hrun := Feed.receive_holding hr.distinct hsublist (hstore ▸ Feed.finds_created hnamed _ _)
    (Feed.knows_created r.listeners store _) hnamed hvars signals fun _ _ ↦ .zero
  rw [← hstore] at hrun
  refine ⟨_, congrArg HostState.store hrun, fun data hdata ↦ ?_, fun data hdata ↦ ?_,
    fun v hv hother k ↦ hr.latest_of_notMem hother draws _⟩
  · have hb : r.dataBlock? .armature = some (.armature data) := by
      simp [Resources.dataBlock?, Option.mem_def.mp hdata]
    have htype : data.joints.type = ArmatureData.uniformType data.maxBones := by
      have huniforms := hr.uniforms _ _ hb
      simp only [DataBlock.vars, DataBlock.uniforms, List.map_cons, List.cons.injEq,
        Prod.mk.injEq] at huniforms
      exact huniforms.1.2
    refine ⟨?_, fun i hi ↦ Joint.entries_of_latest draws i fun j hj ↦ ?_⟩
    · rw [htype, Nat.mul_comm]
      rfl
    · have hfed : (DataBlock.armature data).isFed = true := decide_eq_true (by omega)
      have hfloat (cmd : DrawCommand) :
          (DataBlock.armature data).float? cmd data.joints (i * 16 + j) =
            (cmd.joint? i).map (·.entries.getD j .zero) := by
        have hindex : (i * 16 + j) / 16 = i := by omega
        have hentry : (i * 16 + j) % 16 = j := by omega
        rw [DataBlock.float?, if_pos rfl, hindex, hentry]
      rw [hr.latest_of_mem hb hfed List.mem_cons_self]
      simp only [hfloat]
      rfl
  · have hb : r.dataBlock? .morphWeights = some (.morphWeights data) := by
      simp [Resources.dataBlock?, Option.mem_def.mp hdata]
    have huniforms := hr.uniforms _ _ hb
    simp only [DataBlock.vars, DataBlock.uniforms, List.map_cons, List.cons.injEq,
      Prod.mk.injEq] at huniforms
    obtain ⟨⟨hnameA, htypeA⟩, ⟨hnameB, htypeB⟩, -⟩ := huniforms
    have hne : data.weightsB ≠ data.weightsA := fun heq ↦
      absurd (hnameB.symm.trans (heq ▸ hnameA)) (by decide)
    refine ⟨by rw [htypeA]; rfl, by rw [htypeB]; rfl, fun k hk ↦ ⟨?_, ?_⟩⟩
    · rw [hr.latest_of_mem hb rfl List.mem_cons_self]
      simp only [DataBlock.float?, if_pos]
      rfl
    · rw [hr.latest_of_mem hb rfl (by simp [DataBlock.vars])]
      simp only [DataBlock.float?, if_pos, if_neg hne]
      rfl

/-- A program with room for two joints, the weights of morph targets, and a uniform of its own. -/
def feedingScript : Script :=
  ⟨"feeding", [
    .act (.uniform "tint" (.float .four)) [],
    .buildStage .vertex [
      .declare (.armature 2) [],
      .declare .morphWeights [],
      .main []]]⟩

/-- Two draws, the first with more joints than there is room for and the second with fewer, and the
program compiled again between them. -/
def feedingSignals : List Signal := [
  .draw ⟨some (List.replicate 3 .identity), some (List.replicate 6 .one)⟩,
  .created .empty,
  .draw ⟨some [], some [.zero]⟩]

theorem Program.Built.fed_latest_feeding :
    let r := feedingScript.run.program.resources
    let store := (UniformStore.ofUniforms r.uniforms).without MorphWeightData.nameB
    let start : HostState := ⟨store, (Feed.fresh.created r.listeners store).1⟩
    ∃ (g : Contents) (data : ArmatureData) (weights : MorphWeightData),
      r.armature = some data ∧ r.morphWeights = some weights ∧ data.maxBones = 2 ∧
      (feedingSignals.foldl (HostState.receive r.listeners) start).store =
        .holding (r.uniforms.filter (·.name ∉ [MorphWeightData.nameB])) g ∧
      (List.range 16).map (fun j ↦ g data.joints (1 * 16 + j)) = Joint.identity.entries ∧
      (List.range 4).map (g weights.weightsA) = [.zero, .one, .one, .one] := by
  obtain ⟨g, hstore, hjoints, hweights, -⟩ :=
    Program.Built.fed_latest (.script feedingScript) [MorphWeightData.nameB] feedingSignals
  have hsome : feedingScript.run.program.resources.armature.isSome = true ∧
      feedingScript.run.program.resources.morphWeights.isSome = true := by decide +kernel
  obtain ⟨data, hdata⟩ := Option.isSome_iff_exists.mp hsome.1
  obtain ⟨weights, hmorph⟩ := Option.isSome_iff_exists.mp hsome.2
  have hroom : data.maxBones = 2 := by
    have hbones : feedingScript.run.program.resources.armature.map (·.maxBones) = some 2 := by
      decide +kernel
    rw [hdata] at hbones
    exact Option.some.inj hbones
  refine ⟨g, data, weights, hdata, hmorph, hroom, hstore, (hjoints data hdata).2 1 (by omega), ?_⟩
  exact List.map_congr_left fun k hk ↦ ((hweights weights hmorph).2.2 k (List.mem_range.mp hk)).1

end ShaderGraph
