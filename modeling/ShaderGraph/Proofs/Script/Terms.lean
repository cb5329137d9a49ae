import Mathlib.Data.Set.Basic
import ShaderGraph.Proofs.Expr.Known
import ShaderGraph.Script

/-!
# The terms of scripts

The terms that a script is made of are listed with all their parts, so that
what is asked of a script is asked of each form of term alone: that nothing is
put together without a check, or that only certain functions are called.
-/

namespace ShaderGraph

namespace Term

mutual

/-- A term and all terms that it is made of. -/
def parts : Term → List Term
  | t@(lit _) | t@(var _) | t@(weight ..) => [t]
  | t@(unary _ a) | t@(joint _ a) | t@(convert _ a) | t@(select a _) | t@(typedSwizzle a _)
  | t@(typedSelect a _ _) => t :: a.parts
  | t@(binary _ a b) | t@(element a b) => t :: (a.parts ++ b.parts)
  | t@(call _ args) | t@(callHandle _ args) | t@(typed _ args) | t@(typedCall _ args) =>
    t :: partsOfList args

def partsOfList : List Term → List Term
  | [] => []
  | a :: rest => a.parts ++ partsOfList rest

end

def partsOfOption : Option Term → List Term
  | none => []
  | some a => a.parts

/-- Whether the last step of putting a term together is checked. Conversions only look at types. -/
def isChecked : Term → Bool
  | typed .. | typedCall .. | typedSwizzle .. => false
  | lit _ | var _ | unary .. | binary .. | call .. | callHandle .. | select .. | element ..
  | joint .. | weight .. | convert .. | typedSelect .. => true

/-- The function of a script's own that a term calls. -/
def callee? : Term → Option Signature
  | call (.user f) _ | typed (.call f) _ => some f
  | _ => none

/-- A term may be put together by clients with a registry. -/
structure Permitted (R : Registry) (t : Term) : Prop where
  checked : R.checked → t.isChecked = true
  callee : ∀ f ∈ t.callee?, f ∈ R.signatures

theorem Permitted.mono {R R' : Registry} {t : Term} (h : t.Permitted R) (hR : R ≤ R') :
    t.Permitted R' where
  checked hchecked := h.checked ((Registry.checked_iff hR).mpr hchecked)
  callee f hf := Registry.mem_signatures hR (h.callee f hf)

/-- Everything is permitted to clients that bring all functions and need not check. -/
theorem permitted_start (t : Term) : t.Permitted (.start Set.univ False) :=
  ⟨False.elim, fun f _ ↦ Set.mem_univ f⟩

end Term

def Inquiry.terms : Inquiry → List Term
  | evaluate e => e.parts
  | sameData .. => []

def Action.terms : Action → List Term
  | declare _ init _ => Term.partsOfOption init
  | bind e | bindNamed _ e | checkReads e => e.parts
  | assign target value | augment target _ value | set target _ value =>
    target.parts ++ value.parts
  | leave value => Term.partsOfOption value
  | invoke _ args _ => Term.partsOfList args
  | armatureBlock weights joints _ => weights.parts ++ joints.parts
  | morphBlock _ position normal tangent => position.parts ++ (normal.parts ++ tangent.parts)
  | vertexBlock _ model position normal tangent =>
    model.parts ++ (position.parts ++ (Term.partsOfOption normal ++ Term.partsOfOption tangent))
  | bindNothing _ | breakLoop | continueLoop | discard | inline _ | info | displacementBlock _
  | colorVertexBlock _ | colorBlock _ => []

mutual

def StageStep.terms : StageStep → List Term
  | .inquire q _ => q.terms
  | .declare .. => []
  | .function head body _ => ScopeStep.termsOfList body ++ Term.partsOfOption head.value
  | .main body => ScopeStep.termsOfList body
  | .attempt step => step.terms

def ScopeStep.terms : ScopeStep → List Term
  | .stage step => step.terms
  | .act a _ => a.terms
  | .branch _ condition body rest => condition.parts ++ (ScopeStep.termsOfList body ++ rest.terms)
  | .loopFor _ init condition update body =>
    init.parts ++ (condition.parts ++ (update.parts ++ ScopeStep.termsOfList body))
  | .loopRange _ first stop body => first.parts ++ (stop.parts ++ ScopeStep.termsOfList body)
  | .loopWhile condition body => condition.parts ++ ScopeStep.termsOfList body
  | .block _ body => BlockStep.termsOfList body
  | .attempt step => step.terms

def ElseSteps.terms : ElseSteps → List Term
  | .done => []
  | .otherwise body => ScopeStep.termsOfList body
  | .elseIf condition body rest => condition.parts ++ (ScopeStep.termsOfList body ++ rest.terms)

def BlockStep.terms : BlockStep → List Term
  | .scope step => step.terms
  | .input _ _ value fallback _ _ => Term.partsOfOption value ++ Term.partsOfOption fallback
  | .output .. => []
  | .attempt step => step.terms

def ScopeStep.termsOfList : List ScopeStep → List Term
  | [] => []
  | step :: rest => step.terms ++ ScopeStep.termsOfList rest

def BlockStep.termsOfList : List BlockStep → List Term
  | [] => []
  | step :: rest => step.terms ++ BlockStep.termsOfList rest

end

def ProgramStep.terms : ProgramStep → List Term
  | .inquire q _ => q.terms
  | .act .. => []
  | .buildStage _ body => body.flatMap StageStep.terms
  | .attempt step => step.terms

end ShaderGraph
