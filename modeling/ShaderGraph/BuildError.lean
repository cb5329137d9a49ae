import ShaderGraph.TypeClass
import ShaderGraph.Variable

/-!
# Construction errors

A construction that breaks a rule is rejected at the step that broke it. An
error says what went wrong; `BuildError.message` is its wording and
`BuildError.category` its coarse kind.
-/

namespace ShaderGraph

inductive ErrorCategory where
  | typeMismatch
  | invariantViolation
  | illegalControlFlow
  | invalidTarget
  | nameCollision
  deriving DecidableEq, Repr

inductive BuildError where
  | typeMismatch (op operand expected found : String)
  | indexOutOfRange (op : String) (index length : Nat)
  | unassignedOutput (block output : String)
  | reassignedOutput (block output : String) (count : Nat)
  | unwiredInput (block input : String)
  | capacityExceeded (what : String) (requested capacity : Nat)
  | illegalStatement (statement reason : String)
  | invalidTarget (target reason : String)
  | outOfScope (name : String) (declared scope : ScopeId)
  | nameTaken (name : String)
  | wrongStage (item : String) (required used : StageKind)
  /-- A script is meaningless by itself: it uses a handle that nothing was bound to, or an
  operation at operands it does not exist for. -/
  | illFormed (reason : String)
  deriving DecidableEq, Repr

namespace BuildError

def message : BuildError → String
  | typeMismatch op operand expected found =>
    "type mismatch in `" ++ op ++ "`: " ++ operand ++ " must be " ++ expected ++ ", found " ++ found
  | indexOutOfRange op index length =>
    "index out of range in `" ++ op ++ "`: " ++ toString index ++ " is not below " ++
      toString length
  | unassignedOutput block output =>
    "output port `" ++ output ++ "` of block `" ++ block ++ "` was never assigned"
  | reassignedOutput block output count =>
    "output port `" ++ output ++ "` of block `" ++ block ++ "` was assigned " ++ toString count ++
      " times"
  | unwiredInput block input =>
    "input port `" ++ input ++ "` of block `" ++ block ++ "` is not wired and has no default"
  | capacityExceeded what requested capacity =>
    what ++ ": requested " ++ toString requested ++ ", capacity is " ++ toString capacity
  | illegalStatement statement reason => "`" ++ statement ++ "` is not allowed here: " ++ reason
  | invalidTarget target reason => "invalid assignment target `" ++ target ++ "`: " ++ reason
  | outOfScope name declared scope =>
    "variable `" ++ name ++ "` declared in scope " ++ declared.text ++
      " is not visible from scope " ++ scope.text
  | nameTaken name => "name `" ++ name ++ "` is already taken"
  | wrongStage item required used =>
    item ++ " requires the " ++ required.text ++ " stage, used in the " ++ used.text ++ " stage"
  | illFormed reason => reason

/-- The coarse kind of an error. Bounds are a matter of types, what blocks take and give and
capacities are invariants, and reading out of scope counts as an invalid target like writing
there. -/
def category : BuildError → ErrorCategory
  | typeMismatch .. | indexOutOfRange .. | illFormed .. => .typeMismatch
  | unassignedOutput .. | reassignedOutput .. | unwiredInput .. | capacityExceeded .. =>
    .invariantViolation
  | illegalStatement .. | wrongStage .. => .illegalControlFlow
  | invalidTarget .. | outOfScope .. => .invalidTarget
  | nameTaken .. => .nameCollision

end BuildError

def TypeClass.expect (c : TypeClass) (op operand : String) (found : ValueType) :
    Except BuildError Unit :=
  if c.accepts found then .ok () else .error (.typeMismatch op operand c.text found.text)

def ValueType.expect (expected : ValueType) (op operand : String) (found : ValueType) :
    Except BuildError Unit :=
  (TypeClass.exactly expected).expect op operand found

@[simp] theorem TypeClass.expect_eq_ok {c : TypeClass} {op operand : String} {t : ValueType} :
    c.expect op operand t = .ok () ↔ c.accepts t = true := by
  unfold TypeClass.expect
  split <;> simp_all

@[simp] theorem ValueType.expect_eq_ok {t : ValueType} {op operand : String} {u : ValueType} :
    t.expect op operand u = .ok () ↔ t = u := by
  simp [ValueType.expect]

end ShaderGraph
