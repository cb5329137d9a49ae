import ShaderGraph.Proofs.Typing

/-!
# Control flow

Whether a jump is allowed is asked of the regions around the current scope when
the statement is made. In finished stages all jumps have a place to go to: what
breaks or continues stands in the body of a loop of its own function. Control
leaves a function at its end, where the function has a value to give if it needs
one, or by a return or a discard.
-/

namespace ShaderGraph

namespace Stmt

/-- Goes on with the loop around it, or ends it. -/
def isJump : Stmt → Bool
  | .breakLoop | .continueLoop => true
  | .declare .. | .assign .. | .augment .. | .branch .. | .loopFor .. | .loopWhile .. | .discard
  | .leave _ | .inline _ | .block _ | .invoke .. => false

def isLoop : Stmt → Bool
  | .loopFor .. | .loopWhile .. => true
  | .declare .. | .assign .. | .augment .. | .branch .. | .breakLoop | .continueLoop | .discard
  | .leave _ | .inline _ | .block _ | .invoke .. => false

end Stmt

/-- Whether one of the branches is taken in any case. -/
def ElseChain.exhaustive : ElseChain → Bool
  | .done => false
  | .otherwise _ => true
  | .elseIf _ _ rest => rest.exhaustive

/-- Whether control may get past a statement without entering a region of it. -/
def Stmt.passable : Stmt → Bool
  | .branch _ _ otherwise => !otherwise.exhaustive
  | .declare .. | .assign .. | .augment .. | .loopFor .. | .loopWhile .. | .inline _
  | .invoke .. => true
  | .breakLoop | .continueLoop | .discard | .leave _ | .block _ => false

/-- How control leaves a list of statements. -/
inductive Exit where
  | next
  | broke
  | continued
  | discarded
  | returned (value : Option Expr)

/-- Control may leave statements in a way, whatever the values of conditions are. -/
inductive Exits : List Stmt → Exit → Prop
  | done : Exits [] .next
  | broke {rest : List Stmt} : Exits (.breakLoop :: rest) .broke
  | continued {rest : List Stmt} : Exits (.continueLoop :: rest) .continued
  | discarded {rest : List Stmt} : Exits (.discard :: rest) .discarded
  | returned {rest : List Stmt} {value : Option Expr} :
      Exits (.leave value :: rest) (.returned value)
  | pass {s : Stmt} {rest : List Stmt} {x : Exit} (hs : s.passable = true)
      (hrest : Exits rest x) : Exits (s :: rest) x
  | through {s : Stmt} {r : Region} {rest : List Stmt} {x : Exit} (hs : s.isLoop = false)
      (hr : r ∈ s.regions) (hbody : Exits r.statements .next) (hrest : Exits rest x) :
      Exits (s :: rest) x
  | out {s : Stmt} {r : Region} {rest : List Stmt} {x : Exit} (hs : s.isLoop = false)
      (hr : r ∈ s.regions) (hbody : Exits r.statements x) (hx : x ≠ .next) : Exits (s :: rest) x
  | again {s : Stmt} {r : Region} {rest : List Stmt} {x y : Exit} (hs : s.isLoop = true)
      (hr : r ∈ s.regions) (hbody : Exits r.statements y) (hy : y = .next ∨ y = .continued)
      (hrest : Exits (s :: rest) x) : Exits (s :: rest) x
  | afterBreak {s : Stmt} {r : Region} {rest : List Stmt} {x : Exit} (hs : s.isLoop = true)
      (hr : r ∈ s.regions) (hbody : Exits r.statements .broke) (hrest : Exits rest x) :
      Exits (s :: rest) x
  | outOfLoop {s : Stmt} {r : Region} {rest : List Stmt} {x : Exit} (hs : s.isLoop = true)
      (hr : r ∈ s.regions) (hbody : Exits r.statements x)
      (hx : x = .discarded ∨ ∃ value, x = .returned value) : Exits (s :: rest) x

/-- A nested statement stands in the body of a loop. There may be branches and blocks on the way
to it. -/
def WithinLoop (ss : List Stmt) (path : List ScopeId) (t : Stmt) : Prop :=
  ∃ outer loop r inner, Nested ss outer loop ∧ loop.isLoop = true ∧ r ∈ loop.regions ∧
    Nested r.statements inner t ∧ path = inner ++ r.id :: outer

/-- Control may end a function in such a way. -/
def Function.EndsBy (k : StageKind) (f : Function) : Exit → Prop
  | .next => f.result.map Expr.type = f.signature.result
  | .returned value => value.map Expr.type = f.signature.result
  | .discarded => k = .fragment
  | .broke | .continued => False

/-- The control flow of a function of a stage is well nested. -/
structure Function.WellNested (k : StageKind) (f : Function) : Prop where
  jumps : ∀ path t, Nested f.body.statements path t → t.isJump = true →
    WithinLoop f.body.statements path t
  discards : ∀ path, Nested f.body.statements path .discard → k = .fragment
  value : f.signature.result.isSome = true →
    f.result.isSome = true ∨ ∃ e, f.body.statements.getLast? = some (.leave (some e))
  ends : ∀ x, Exits f.body.statements x → f.EndsBy k x

theorem Stmt.Accepted.regionKind {R : Registry} {k : StageKind} {frames : List Frame} {s : Stmt}
    (h : s.Accepted R k frames) {r : Region} (hr : r ∈ s.regions) :
    if s.isLoop = true then r.kind = .loop else r.kind = .branch ∨ r.kind = .block := by
  cases h with
  | branch _ hkind => exact .inl (hkind r hr)
  | loopFor _ _ _ hkind | loopWhile _ hkind => exact List.mem_singleton.mp hr ▸ hkind
  | block _ hkind => exact .inr (List.mem_singleton.mp hr ▸ hkind)
  | _ => cases hr

/-- In a branch or a block the loops are those around it. -/
theorem Stmt.Accepted.framesInLoop_inside {R : Registry} {k : StageKind} {frames : List Frame}
    {s : Stmt} (h : s.Accepted R k frames) (hs : s.isLoop = false) {r : Region}
    (hr : r ∈ s.regions) :
    ScopeDraft.framesInLoop (r.frame :: frames) = ScopeDraft.framesInLoop frames := by
  have hkind := h.regionKind hr
  rw [if_neg (by simp [hs])] at hkind
  rcases hkind with hkind | hkind <;>
    simp [ScopeDraft.framesInLoop, Region.frame, hkind]

namespace WithinLoop

variable {ss : List Stmt} {s t : Stmt} {path : List ScopeId} {r : Region}

theorem of_body (hs : s ∈ ss) (hloop : s.isLoop = true) (hr : r ∈ s.regions)
    (ht : Nested r.statements path t) : WithinLoop ss (path ++ [r.id]) t :=
  ⟨[], s, r, path, .here hs, hloop, hr, ht, rfl⟩

theorem inside (h : WithinLoop r.statements path t) (hs : s ∈ ss) (hr : r ∈ s.regions) :
    WithinLoop ss (path ++ [r.id]) t := by
  obtain ⟨outer, loop, body, inner, hloop, his, hbody, ht, rfl⟩ := h
  exact ⟨outer ++ [r.id], loop, body, inner, .inside hs hr hloop, his, hbody, ht, by simp⟩

end WithinLoop

section

variable {R : Registry} {k : StageKind} {frames : List Frame} {ss : List Stmt}

/-- A jump has its loop among the statements, or else the statements stand in one. -/
theorem Accepted.withinLoop (h : Accepted R k frames ss) {path : List ScopeId} {t : Stmt}
    (ht : Nested ss path t) (hjump : t.isJump = true) :
    ScopeDraft.framesInLoop frames = true ∨ WithinLoop ss path t := by
  induction ht generalizing frames with
  | here hs =>
    cases h.own hs with
    | breakLoop hloop | continueLoop hloop => exact .inl hloop
    | _ => cases hjump
  | @inside ss s body path t hs hbody ht ih =>
    -- A loop on the way in is one for the jump. Branches and blocks leave those around them.
    cases hloop : s.isLoop with
    | true => exact .inr (.of_body hs hloop hbody ht)
    | false =>
      rcases ih (h.inside hs hbody) hjump with hframes | hwithin
      · rw [(h.own hs).framesInLoop_inside hloop hbody] at hframes
        exact .inl hframes
      · exact .inr (hwithin.inside hs hbody)

/-! ## Exits -/

/-- Within regions, an exit leads to where the check of its statement said. -/
def Exit.Allowed (k : StageKind) (frames : List Frame) : Exit → Prop
  | .next => True
  | .broke | .continued => ScopeDraft.framesInLoop frames = true
  | .discarded => k = .fragment
  | .returned value =>
    ∃ result, ScopeDraft.framesResult? frames = some result ∧ value.map Expr.type = result

theorem Exit.Allowed.outside {s : Stmt} {r : Region} {x : Exit}
    (h : x.Allowed k (r.frame :: frames)) (hs : s.Accepted R k frames) (hr : r ∈ s.regions)
    (hx : s.isLoop = false ∨ x = .discarded ∨ ∃ value, x = .returned value) :
    x.Allowed k frames := by
  have hresult := hs.framesResult?_inside hr
  cases x with
  | next => trivial
  | discarded => exact h
  | returned value =>
    unfold Exit.Allowed at h ⊢
    rwa [hresult] at h
  | broke | continued =>
    rcases hx with hloop | hx | ⟨value, hx⟩
    · unfold Exit.Allowed at h ⊢
      rwa [hs.framesInLoop_inside hloop hr] at h
    · cases hx
    · cases hx

/-- Control leaves accepted statements in ways that are allowed where they stand. -/
theorem Accepted.exit_allowed (h : Accepted R k frames ss) {x : Exit} (hx : Exits ss x) :
    x.Allowed k frames := by
  have htail {s : Stmt} {rest : List Stmt} {frames : List Frame}
      (h : Accepted R k frames (s :: rest)) : Accepted R k frames rest :=
    .intro (fun t ht ↦ h.own (List.mem_cons_of_mem s ht))
      fun t ht r hr ↦ h.inside (List.mem_cons_of_mem s ht) hr
  induction hx generalizing frames with
  | done => trivial
  | broke =>
    cases h.own List.mem_cons_self with
    | breakLoop hloop => exact hloop
  | continued =>
    cases h.own List.mem_cons_self with
    | continueLoop hloop => exact hloop
  | discarded =>
    cases h.own List.mem_cons_self with
    | discard hstage => exact hstage
  | returned =>
    cases h.own List.mem_cons_self with
    | leave _ hresult hcheck => exact ⟨_, hresult, ScopeDraft.leaveCheck_eq_ok.mp hcheck⟩
  | pass _ _ ih => exact ih (htail h)
  | through _ _ _ _ _ ih => exact ih (htail h)
  | out hs hr _ _ ih =>
    exact (ih (h.inside List.mem_cons_self hr)).outside (h.own List.mem_cons_self) hr (.inl hs)
  | again _ _ _ _ _ _ ih => exact ih h
  | afterBreak _ _ _ _ _ ih => exact ih (htail h)
  | outOfLoop _ hr _ hx ih =>
    exact (ih (h.inside List.mem_cons_self hr)).outside (h.own List.mem_cons_self) hr (.inr hx)

end

/-- Behind a return there is no way out. -/
theorem Exits.ne_next_of_getLast? {ss : List Stmt} {value : Option Expr} {x : Exit}
    (h : Exits ss x) (hlast : ss.getLast? = some (.leave value)) : x ≠ .next := by
  have htail {s : Stmt} {rest : List Stmt} (hlast : (s :: rest).getLast? = some (.leave value))
      (hs : s ≠ .leave value) : rest.getLast? = some (.leave value) := by
    cases rest with
    | nil => exact absurd (Option.some.inj hlast) hs
    | cons t rest => rwa [List.getLast?_cons_cons] at hlast
  induction h with
  | done => cases hlast
  | broke | continued | discarded | returned => exact nofun
  | pass hs _ ih => exact ih (htail hlast fun heq ↦ by simp [heq, Stmt.passable] at hs)
  | through _ hr _ _ _ ih => exact ih (htail hlast fun heq ↦ by simp [heq, Stmt.regions] at hr)
  | out _ _ _ hx => exact hx
  | again _ _ _ _ _ _ ih => exact ih hlast
  | afterBreak hs _ _ _ _ ih => exact ih (htail hlast fun heq ↦ by simp [heq, Stmt.isLoop] at hs)
  | outOfLoop _ _ _ hx =>
    rcases hx with rfl | ⟨v, rfl⟩ <;> exact nofun

theorem StageDraft.endsWithValue_iff {body : Region} : endsWithValue body = true ↔
    ∃ e, body.statements.getLast? = some (.leave (some e)) := by
  unfold endsWithValue
  split
  · next e h => exact ⟨fun _ ↦ ⟨e, h⟩, fun _ ↦ rfl⟩
  · next h => exact ⟨nofun, fun ⟨e, he⟩ ↦ (h e he).elim⟩

theorem Function.Accepted.flow {R : Registry} {k : StageKind} {f : Function}
    (h : f.Accepted R k) : f.WellNested k := by
  have hloop : ScopeDraft.framesInLoop [f.body.frame] = false := by
    simp [ScopeDraft.framesInLoop, Region.frame, h.kind]
  have hresult : ScopeDraft.framesResult? [f.body.frame] = some f.signature.result := by
    simp [ScopeDraft.framesResult?, Region.frame, h.kind]
  have hreturn := StageDraft.returnCheck_eq_ok.mp h.returned
  refine ⟨fun path t ht hjump ↦ ?_, fun path ht ↦ ?_, fun hsome ↦ ?_, fun x hx ↦ ?_⟩
  · rcases h.body.withinLoop ht hjump with hframes | hwithin
    · rw [hloop] at hframes
      cases hframes
    · exact hwithin
  · obtain ⟨frames, hdiscard, -⟩ := h.body.of_nested ht
    cases hdiscard with
    | discard hstage => exact hstage
  · rcases hreturn with hvalue | ⟨-, -, hends⟩
    · rw [← hvalue, Option.isSome_map] at hsome
      exact .inl hsome
    · exact .inr (StageDraft.endsWithValue_iff.mp hends)
  · have hallowed := h.body.exit_allowed hx
    cases x with
    | next =>
      rcases hreturn with hvalue | ⟨-, -, hends⟩
      · exact hvalue
      · obtain ⟨e, hlast⟩ := StageDraft.endsWithValue_iff.mp hends
        exact absurd rfl (hx.ne_next_of_getLast? hlast)
    | broke | continued =>
      unfold Exit.Allowed at hallowed
      rw [hloop] at hallowed
      cases hallowed
    | discarded => exact hallowed
    | returned value =>
      obtain ⟨result, hframes, hvalue⟩ := hallowed
      exact hvalue.trans (Option.some.inj (hframes.symm.trans hresult))

/-- Within a loop a function is defined that leaves a loop of its own, after another one was tried
that breaks out of the loop it is defined in. -/
def jumpingScript : Script :=
  ⟨"jumping", [
    .buildStage .fragment [.main [
      .loopWhile (.lit (.bool1 true)) [
        .stage (.attempt (.function ⟨some "escape", [], none, [], none, false⟩
          [.act .breakLoop []] [])),
        .stage (.function ⟨some "pick", [.int .one], some (.int .one), ["n"], none, false⟩ [
          .loopWhile (.lit (.bool1 true)) [
            .block "kind" [
              .scope (.branch .checked (.binary .eq (.var "n") (.lit (.int1 2)))
                [.act .breakLoop []] .done)]],
          .act (.leave (some (.var "n"))) []] [some "pick"]),
        .branch .checked (.lit (.bool1 true)) [.act .discard []]
          (.otherwise [.act .continueLoop []])]]]]⟩

/-- In finished stages control goes where it is meant to. -/
theorem Program.Built.control_wellNested {p : Program} (h : p.Built) {stage : Stage}
    (hstage : stage ∈ p.stages) {f : Function} (hf : f ∈ stage.definitions) :
    f.WellNested stage.kind := by
  obtain ⟨name, signatures, R, hev⟩ := h.evolves
  have haccepted : ∀ s ∈ p.stages, s.Accepted R := hev.accepted fun s hs ↦ by cases hs
  rcases List.mem_append.mp hf with hf | hf
  · exact ((haccepted stage hstage).functions f hf).flow
  · exact ((haccepted stage hstage).main f (Option.mem_toList.mp hf)).1.flow

theorem Program.Built.control_wellNested_jumping :
    ∃ stage ∈ jumpingScript.run.program.stages, ∃ f ∈ stage.definitions,
      f.signature.name = "pick" ∧ f.body.statements.length = 2 ∧ f.WellNested stage.kind := by
  have hfound : (jumpingScript.run.program.stages.any fun stage ↦ stage.definitions.any fun f ↦
      decide (f.signature.name = "pick" ∧ f.body.statements.length = 2)) = true := by
    decide +kernel
  simp only [List.any_eq_true, decide_eq_true_eq] at hfound
  obtain ⟨stage, hstage, f, hf, hname, hlength⟩ := hfound
  exact ⟨stage, hstage, f, hf, hname, hlength,
    Program.Built.control_wellNested (.script jumpingScript) hstage hf⟩

end ShaderGraph
