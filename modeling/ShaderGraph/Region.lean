import ShaderGraph.Expr

/-!
# Statements and regions

A region is the body of a function, branch, loop or block: its statements and
the variables declared in it. A statement may hold regions in turn.
-/

namespace ShaderGraph

inductive RegionKind where
  | function (result : Option ValueType)
  | block
  | branch
  | loop
  deriving DecidableEq, Repr

/-- A value that a block takes: the variable of its body that holds it, and what is wired to it. -/
structure BlockInput where
  name : String
  slot : Variable
  value : Expr

structure BlockOutput where
  name : String
  slot : Variable

mutual

inductive Stmt where
  | declare (v : Variable) (init : Option Expr)
  | assign (target value : Expr)
  | augment (target : Expr) (op : AugmentOp) (value : Expr)
  | branch (condition : Expr) (body : Region) (otherwise : ElseChain)
  /-- Declares `v` in the body; `update` is its next value. -/
  | loopFor (v : Variable) (init condition update : Expr) (body : Region)
  | loopWhile (condition : Expr) (body : Region)
  | breakLoop
  | continueLoop
  | discard
  | leave (value : Option Expr)
  | inline (code : String)
  | block (b : Block)
  /-- A call whose result, if any, is dropped. -/
  | invoke (f : Signature) (args : List Expr)

inductive ElseChain where
  | done
  | otherwise (body : Region)
  | elseIf (condition : Expr) (body : Region) (rest : ElseChain)

/-- A named part of a region with inputs and outputs. Its outputs belong to the region around it. -/
structure Block where
  name : String
  kind : String
  inputs : List BlockInput
  outputs : List BlockOutput
  body : Region

/-- Statements, and the variables declared among them in the order they were introduced. -/
structure Region where
  id : ScopeId
  kind : RegionKind
  statements : List Stmt
  declared : List Variable

end

/-- A chain with another one at its end, where it has no last branch yet. -/
def ElseChain.append : ElseChain → ElseChain → ElseChain
  | .done, tail => tail
  | .otherwise body, _ => .otherwise body
  | .elseIf condition body rest, tail => .elseIf condition body (rest.append tail)

end ShaderGraph
