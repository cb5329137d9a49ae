import ShaderGraph.Proofs.Registration
import ShaderGraph.Proofs.Uniforms.Store
import ShaderGraph.Uniforms.Host

/-!
# What feeds write

A feed finds the uniforms of the data blocks in the store that the program was
compiled with, and keeps these places. Every draw then overwrites the floats
that it has something for, and no others.
-/

namespace ShaderGraph

/-- What a host has to tell a program: that it draws, or that the program was compiled again, for
any store. -/
inductive Signal where
  | draw (cmd : DrawCommand)
  | created (other : UniformStore)

def Signal.draw? : Signal → Option DrawCommand
  | draw cmd => some cmd
  | created _ => none

def HostState.receive (listeners : List DataBlock) (h : HostState) : Signal → HostState
  | .draw cmd => { h with store := h.feed.update listeners cmd h.store }
  | .created other => { h with feed := (h.feed.created listeners other).1 }

namespace DrawCommand

def joint? (i : Nat) (cmd : DrawCommand) : Option Joint := (cmd.joints.getD [])[i]?

def weight? (k : Nat) (cmd : DrawCommand) : Option Single := (cmd.weights.getD [])[k]?

end DrawCommand

/-- What a draw has for a float of a variable of a data block. -/
def DataBlock.float? (cmd : DrawCommand) (v : Variable) (k : Nat) : DataBlock → Option Single
  | armature data =>
    if v = data.joints then (cmd.joint? (k / 16)).map (·.entries.getD (k % 16) .zero) else none
  | morphWeights data =>
    if v = data.weightsA then cmd.weight? k
    else if v = data.weightsB then cmd.weight? (k + 4)
    else none

theorem DataBlock.float?_of_notMem {b : DataBlock} {cmd : DrawCommand} {v : Variable} {k : Nat}
    (h : v ∉ b.vars) : b.float? cmd v k = none := by
  cases b <;> simp_all [float?, vars]

namespace Contents

/-- The contents with what a draw has for a data block. -/
def draw (cmd : DrawCommand) (g : Contents) (b : DataBlock) : Contents :=
  fun v k ↦ (b.float? cmd v k).getD (g v k)

end Contents

namespace Feed

variable {vs : List Variable} {feed : Feed} {b : DataBlock}

/-- A feed has looked for the uniforms of a data block. -/
def Knows (feed : Feed) : DataBlock → Prop
  | .armature _ => feed.joints.isSome
  | .morphWeights _ => feed.weightsA.isSome ∧ feed.weightsB.isSome

/-- Where a feed found something, it is the place of the uniform among the variables. -/
structure Finds (vs : List Variable) (feed : Feed) : Prop where
  joints : ∀ found ∈ feed.joints, found = vs.findIdx? (·.name == ArmatureData.uniformName)
  weightsA : ∀ found ∈ feed.weightsA, found = vs.findIdx? (·.name == MorphWeightData.nameA)
  weightsB : ∀ found ∈ feed.weightsB, found = vs.findIdx? (·.name == MorphWeightData.nameB)

theorem note_of_knows (h : feed.Knows b) (store : UniformStore) : feed.note store b = feed := by
  obtain ⟨joints, weightsA, weightsB⟩ := feed
  cases b with
  | armature data =>
    obtain ⟨found, rfl⟩ := Option.isSome_iff_exists.mp h
    rfl
  | morphWeights data =>
    obtain ⟨foundA, rfl⟩ := Option.isSome_iff_exists.mp h.1
    obtain ⟨foundB, rfl⟩ := Option.isSome_iff_exists.mp h.2
    rfl

theorem knows_note (store : UniformStore) (feed : Feed) (b : DataBlock) :
    (feed.note store b).Knows b := by
  cases b <;> simp [note, keepFirst, Knows]

theorem Knows.note (h : feed.Knows b) (store : UniformStore) (b' : DataBlock) :
    (feed.note store b').Knows b := by
  cases b <;> cases b' <;> simp_all [Knows, Feed.note, keepFirst]

/-- The uniforms of a data block have the names that are meant for them. -/
def Named (b : DataBlock) : Prop := b.vars.map (fun v ↦ (v.name, v.type)) = b.uniforms

theorem Finds.note (h : feed.Finds vs) (hb : Named b) (g : Contents) :
    (feed.note (.holding vs g) b).Finds vs := by
  have hkeep {known : Option (Option Nat)} {name : String}
      (h : ∀ found ∈ known, found = vs.findIdx? (·.name == name)) :
      ∀ found ∈ keepFirst known (UniformStore.resolve (.holding vs g) name),
        found = vs.findIdx? (·.name == name) := by
    intro found hfound
    obtain rfl := Option.some.inj hfound
    rw [UniformStore.resolve_holding]
    cases known with
    | none => rfl
    | some found => exact h found rfl
  cases b with
  | armature data =>
    simp only [Named, DataBlock.vars, DataBlock.uniforms, List.map_cons, List.map_nil,
      List.cons.injEq, Prod.mk.injEq, and_true] at hb
    exact { h with joints := hb.1 ▸ hkeep (hb.1 ▸ h.joints) }
  | morphWeights data =>
    simp only [Named, DataBlock.vars, DataBlock.uniforms, List.map_cons, List.map_nil,
      List.cons.injEq, Prod.mk.injEq, and_true] at hb
    exact { h with
      weightsA := hb.1.1 ▸ hkeep (hb.1.1 ▸ h.weightsA)
      weightsB := hb.2.1 ▸ hkeep (hb.2.1 ▸ h.weightsB) }

theorem finds_fresh (vs : List Variable) : fresh.Finds vs where
  joints _ h := by cases h
  weightsA _ h := by cases h
  weightsB _ h := by cases h

variable {listeners : List DataBlock}

/-- Once the program is compiled, a feed knows where its listeners are. -/
theorem finds_created (hnamed : ∀ b ∈ listeners, Named b) (vs : List Variable) (g : Contents) :
    (fresh.created listeners (.holding vs g)).1.Finds vs := by
  have hfold (bs : List DataBlock) (hbs : ∀ b ∈ bs, Named b) (feed : Feed) (h : feed.Finds vs) :
      (bs.foldl (note (.holding vs g)) feed).Finds vs := by
    induction bs generalizing feed with
    | nil => exact h
    | cons b rest ih =>
      exact ih (fun c hc ↦ hbs c (List.mem_cons_of_mem b hc)) _
        (h.note (hbs b List.mem_cons_self) g)
  exact hfold listeners hnamed fresh (finds_fresh vs)

theorem knows_created (listeners : List DataBlock) (store : UniformStore) (feed : Feed) :
    ∀ b ∈ listeners, (feed.created listeners store).1.Knows b := by
  have hkeep (bs : List DataBlock) (feed : Feed) {b : DataBlock} (h : feed.Knows b) :
      (bs.foldl (note store) feed).Knows b := by
    induction bs generalizing feed with
    | nil => exact h
    | cons c rest ih => exact ih _ (h.note store c)
  change ∀ b ∈ listeners, (listeners.foldl (note store) feed).Knows b
  induction listeners generalizing feed with
  | nil => exact fun b hb ↦ by cases hb
  | cons b rest ih =>
    intro c hc
    rcases List.mem_cons.mp hc with rfl | hc
    · exact hkeep rest _ (knows_note store feed c)
    · exact ih (feed.note store b) c hc

/-- Whatever the program is compiled for later, the feed stays as it is. -/
theorem created_of_knows (h : ∀ b ∈ listeners, feed.Knows b) (other : UniformStore) :
    (feed.created listeners other).1 = feed := by
  change listeners.foldl (note other) feed = feed
  induction listeners with
  | nil => rfl
  | cons b rest ih =>
    rw [List.foldl_cons, note_of_knows (h b List.mem_cons_self) other]
    exact ih fun c hc ↦ h c (List.mem_cons_of_mem b hc)

end Feed

/-! ## Draws -/

namespace StoreCall

theorem applyAll_append (store : UniformStore) (calls more : List StoreCall) :
    applyAll store (calls ++ more) = applyAll (applyAll store calls) more :=
  List.foldl_append

end StoreCall

namespace Contents

/-- The contents with joints from one of them on in a variable. -/
def overwriteJoints (g : Contents) (v : Variable) (i : Nat) (joints : List Joint) : Contents :=
  fun w k ↦
    if w = v ∧ i ≤ k / 16 then
      ((joints[k / 16 - i]?).map (·.entries.getD (k % 16) .zero)).getD (g w k)
    else g w k

theorem overwriteJoints_cons (g : Contents) (v : Variable) (i : Nat) (j : Joint)
    (rest : List Joint) : g.overwriteJoints v i (j :: rest) =
      (g.overwrite v (i * 16) j.entries).overwriteJoints v (i + 1) rest := by
  funext w k
  simp only [overwriteJoints, overwrite]
  by_cases hw : w = v
  · rcases Nat.lt_trichotomy (k / 16) i with hk | hk | hk
    · rw [if_neg (by omega), if_neg (by omega), if_neg (by omega)]
    · have hoffset : k - i * 16 = k % 16 := by omega
      have hlt : k % 16 < j.entries.length := by
        rw [j.length_eq]
        omega
      rw [if_pos ⟨hw, by omega⟩, if_neg (by omega), if_pos ⟨hw, by omega⟩, hoffset, hk]
      simp [List.getElem?_eq_getElem hlt]
    · have hpast : j.entries.length ≤ k - i * 16 := by
        rw [j.length_eq]
        omega
      obtain ⟨n, hn⟩ : ∃ n, k / 16 - i = n + 1 := ⟨k / 16 - i - 1, by omega⟩
      have hn' : k / 16 - (i + 1) = n := by omega
      rw [if_pos ⟨hw, by omega⟩, if_pos ⟨hw, by omega⟩, if_pos ⟨hw, by omega⟩, hn, hn']
      simp [List.getElem?_eq_none hpast]
  · simp [hw]

end Contents

namespace UniformStore

variable {us vs : List Variable} {v : Variable}

/-- A uniform is found at its place, or it was dropped. -/
theorem findIdx?_cases (hus : (us.map Variable.name).Nodup) (hvs : vs.Sublist us) (hv : v ∈ us) :
    (∃ location, vs.findIdx? (·.name == v.name) = some location ∧ vs[location]? = some v) ∨
      vs.findIdx? (·.name == v.name) = none ∧ v ∉ vs := by
  by_cases hmem : v ∈ vs
  · exact .inl (findIdx?_eq_some (hus.sublist (hvs.map _)) hmem)
  · refine .inr ⟨List.findIdx?_eq_none_iff.mpr fun w hw ↦ ?_, hmem⟩
    refine beq_eq_false_iff_ne.mpr fun hname ↦ hmem ?_
    exact List.inj_on_of_nodup_map hus (hvs.subset hw) hv hname ▸ hw

theorem applyAll_writeTo (hus : (us.map Variable.name).Nodup) (hvs : vs.Sublist us) (hv : v ∈ us)
    (g : Contents) (new : List Single) : StoreCall.applyAll (holding vs g)
      (Feed.writeTo (some (vs.findIdx? (·.name == v.name))) new) =
        holding vs (g.overwrite v 0 new) := by
  rcases findIdx?_cases hus hvs hv with ⟨location, hfind, hlocation⟩ | ⟨hfind, hmem⟩
  · rw [hfind]
    exact write_holding ((hus.of_map _).sublist hvs) hlocation g 0 new
  · rw [hfind]
    refine holding_congr fun w hw k _ ↦ ?_
    have hne : w ≠ v := fun heq ↦ hmem (heq ▸ hw)
    simp [Contents.overwrite, hne]

theorem applyAll_writeJoints (hvs : vs.Nodup) {location : Nat} (h : vs[location]? = some v)
    (g : Contents) (i : Nat) (joints : List Joint) : StoreCall.applyAll (holding vs g)
      (Feed.writeJoints location i joints) = holding vs (g.overwriteJoints v i joints) := by
  induction joints generalizing i g with
  | nil =>
    refine holding_congr fun w _ k _ ↦ ?_
    simp [Contents.overwriteJoints]
  | cons j rest ih =>
    rw [Contents.overwriteJoints_cons, ← ih, ← write_holding hvs h]
    rfl

end UniformStore

namespace Feed

variable {us vs : List Variable} {feed : Feed} {b : DataBlock}

/-- The joints of a draw go to the uniform of an armature, as far as it has room for them. -/
theorem applyAll_writes_armature (hus : (us.map Variable.name).Nodup) (hvs : vs.Sublist us)
    (hfeed : feed.Finds vs) {data : ArmatureData} (hknows : feed.Knows (.armature data))
    (hnamed : Named (.armature data)) (hdata : data.joints ∈ us) (cmd : DrawCommand)
    (g g₀ : Contents) : StoreCall.applyAll (.holding vs g)
      (feed.writes cmd (.holding vs g₀) (.armature data)) =
        .holding vs (g.draw cmd (.armature data)) := by
  obtain ⟨hname, htype⟩ : data.joints.name = ArmatureData.uniformName ∧
      data.joints.type = ArmatureData.uniformType data.maxBones := by
    simpa [Named, DataBlock.vars, DataBlock.uniforms] using hnamed
  obtain ⟨found, hfound⟩ := Option.isSome_iff_exists.mp hknows
  have hplace := hfeed.joints found hfound
  rw [← hname] at hplace
  rcases UniformStore.findIdx?_cases hus hvs hdata with ⟨location, hfind, hlocation⟩ | ⟨hfind, hmem⟩
  · have helements := UniformStore.elementsAt_holding hlocation g₀
    cases hjoints : cmd.joints with
    | none =>
      simp only [writes, hfound, hplace, hfind, hjoints]
      refine UniformStore.holding_congr fun w _ k _ ↦ ?_
      simp [Contents.draw, DataBlock.float?, DrawCommand.joint?, hjoints]
    | some joints =>
      simp only [writes, hfound, hplace, hfind, hjoints]
      rw [UniformStore.applyAll_writeJoints ((hus.of_map _).sublist hvs) hlocation]
      refine UniformStore.holding_congr fun w _ k hk ↦ ?_
      by_cases hw : w = data.joints
      · subst hw
        have hroom : k / 16 < data.joints.type.elements := by
          have hfloats : data.joints.type.floats = 16 * data.joints.type.elements := by
            rw [htype]
            rfl
          omega
        simp [Contents.overwriteJoints, Contents.draw, DataBlock.float?, DrawCommand.joint?,
          hjoints, helements, hroom]
      · simp [Contents.overwriteJoints, Contents.draw, DataBlock.float?, hw]
  · simp only [writes, hfound, hplace, hfind]
    refine UniformStore.holding_congr fun w hw k _ ↦ ?_
    have hne : w ≠ data.joints := fun heq ↦ hmem (heq ▸ hw)
    simp [Contents.draw, DataBlock.float?, hne]

/-- The first four weights of a draw go to one register and the next four to the other. -/
theorem applyAll_writes_morphWeights (hus : (us.map Variable.name).Nodup) (hvs : vs.Sublist us)
    (hfeed : feed.Finds vs) {data : MorphWeightData} (hknows : feed.Knows (.morphWeights data))
    (hnamed : Named (.morphWeights data)) (hA : data.weightsA ∈ us) (hB : data.weightsB ∈ us)
    (cmd : DrawCommand) (g g₀ : Contents) : StoreCall.applyAll (.holding vs g)
      (feed.writes cmd (.holding vs g₀) (.morphWeights data)) =
        .holding vs (g.draw cmd (.morphWeights data)) := by
  obtain ⟨⟨hnameA, htypeA⟩, hnameB, htypeB⟩ :
      (data.weightsA.name = MorphWeightData.nameA ∧
        data.weightsA.type = MorphWeightData.uniformType) ∧
      data.weightsB.name = MorphWeightData.nameB ∧
        data.weightsB.type = MorphWeightData.uniformType := by
    simpa [Named, DataBlock.vars, DataBlock.uniforms] using hnamed
  obtain ⟨foundA, hfoundA⟩ := Option.isSome_iff_exists.mp hknows.1
  obtain ⟨foundB, hfoundB⟩ := Option.isSome_iff_exists.mp hknows.2
  have hplaceA := hfeed.weightsA foundA hfoundA
  have hplaceB := hfeed.weightsB foundB hfoundB
  rw [← hnameA] at hplaceA
  rw [← hnameB] at hplaceB
  have hne : data.weightsB ≠ data.weightsA := fun heq ↦ by
    rw [heq, hnameA] at hnameB
    exact absurd hnameB (by decide)
  have hfour {v : Variable} (htype : v.type = MorphWeightData.uniformType) : v.type.floats = 4 := by
    rw [htype]
    rfl
  cases hweights : cmd.weights with
  | none =>
    simp only [writes, hweights]
    refine UniformStore.holding_congr fun w _ k _ ↦ ?_
    simp [Contents.draw, DataBlock.float?, DrawCommand.weight?, hweights]
  | some weights =>
    simp only [writes, hweights, hfoundA, hfoundB, hplaceA, hplaceB]
    rw [StoreCall.applyAll_append, UniformStore.applyAll_writeTo hus hvs hA]
    have hsecond : StoreCall.applyAll (.holding vs (g.overwrite data.weightsA 0 (weights.take 4)))
        (if 4 < weights.length then
          writeTo (some (vs.findIdx? (·.name == data.weightsB.name))) ((weights.drop 4).take 4)
        else []) = .holding vs ((g.overwrite data.weightsA 0 (weights.take 4)).overwrite
          data.weightsB 0 ((weights.drop 4).take 4)) := by
      split
      · exact UniformStore.applyAll_writeTo hus hvs hB _ _
      · next hfew =>
        refine UniformStore.holding_congr fun w _ k _ ↦ ?_
        simp [Contents.overwrite, List.drop_eq_nil_of_le (Nat.not_lt.mp hfew)]
    refine hsecond.trans (UniformStore.holding_congr fun w _ k hk ↦ ?_)
    by_cases hwA : w = data.weightsA
    · subst hwA
      rw [hfour htypeA] at hk
      simp [Contents.overwrite, Contents.draw, DataBlock.float?, DrawCommand.weight?, hweights,
        hne.symm, hk]
    · by_cases hwB : w = data.weightsB
      · subst hwB
        rw [hfour htypeB] at hk
        simp [Contents.overwrite, Contents.draw, DataBlock.float?, DrawCommand.weight?, hweights,
          hne, hk, Nat.add_comm]
      · simp [Contents.overwrite, Contents.draw, DataBlock.float?, hwA, hwB]

theorem applyAll_writes (hus : (us.map Variable.name).Nodup) (hvs : vs.Sublist us)
    (hfeed : feed.Finds vs) (hknows : feed.Knows b) (hnamed : Named b) (hb : ∀ v ∈ b.vars, v ∈ us)
    (cmd : DrawCommand) (g g₀ : Contents) : StoreCall.applyAll (.holding vs g)
      (feed.writes cmd (.holding vs g₀) b) = .holding vs (g.draw cmd b) := by
  cases b with
  | armature data =>
    exact applyAll_writes_armature hus hvs hfeed hknows hnamed (hb _ (by simp [DataBlock.vars]))
      cmd g g₀
  | morphWeights data =>
    exact applyAll_writes_morphWeights hus hvs hfeed hknows hnamed
      (hb _ (by simp [DataBlock.vars])) (hb _ (by simp [DataBlock.vars])) cmd g g₀

theorem update_holding (hus : (us.map Variable.name).Nodup) (hvs : vs.Sublist us)
    (hfeed : feed.Finds vs) {listeners : List DataBlock} (hknows : ∀ b ∈ listeners, feed.Knows b)
    (hnamed : ∀ b ∈ listeners, Named b) (hvars : ∀ b ∈ listeners, ∀ v ∈ b.vars, v ∈ us)
    (cmd : DrawCommand) (g : Contents) : feed.update listeners cmd (.holding vs g) =
      .holding vs (listeners.foldl (Contents.draw cmd) g) := by
  have hfold (bs : List DataBlock) (hbs : ∀ b ∈ bs, b ∈ listeners) (g' : Contents) :
      StoreCall.applyAll (.holding vs g') (bs.flatMap (feed.writes cmd (.holding vs g))) =
        .holding vs (bs.foldl (Contents.draw cmd) g') := by
    induction bs generalizing g' with
    | nil => rfl
    | cons b rest ih =>
      have hb := hbs b List.mem_cons_self
      rw [List.flatMap_cons, StoreCall.applyAll_append, List.foldl_cons,
        applyAll_writes hus hvs hfeed (hknows b hb) (hnamed b hb) (hvars b hb)]
      exact ih (fun c hc ↦ hbs c (List.mem_cons_of_mem b hc)) _
  exact hfold listeners (fun _ hb ↦ hb) g

/-- The store after any signals. Only the draws matter for it. -/
theorem receive_holding (hus : (us.map Variable.name).Nodup) (hvs : vs.Sublist us)
    (hfeed : feed.Finds vs) {listeners : List DataBlock} (hknows : ∀ b ∈ listeners, feed.Knows b)
    (hnamed : ∀ b ∈ listeners, Named b) (hvars : ∀ b ∈ listeners, ∀ v ∈ b.vars, v ∈ us)
    (signals : List Signal) (g : Contents) :
    signals.foldl (HostState.receive listeners) ⟨.holding vs g, feed⟩ =
      ⟨.holding vs ((signals.filterMap Signal.draw?).foldl
        (fun g cmd ↦ listeners.foldl (Contents.draw cmd) g) g), feed⟩ := by
  induction signals generalizing g with
  | nil => rfl
  | cons signal rest ih =>
    cases signal with
    | draw cmd =>
      rw [List.foldl_cons, HostState.receive,
        update_holding hus hvs hfeed hknows hnamed hvars, ih]
      rfl
    | created other =>
      rw [List.foldl_cons, HostState.receive, created_of_knows hknows, ih]
      rfl

end Feed

end ShaderGraph
