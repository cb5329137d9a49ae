import ShaderGraph.Region

/-!
# Reads and writes

Every statement reads and writes sets of variables, through all regions nested
in it. A region hides the variables that it declares.
-/

namespace ShaderGraph

namespace Expr

/-- Adds what an assignment reads through its target: the indices in it and, if the old value is
used, the variable that it writes. -/
def addTargetReads (usesOld : Bool) (s : VarSet) : Expr → VarSet
  | var v => if usesOld then s.insert v else s
  | swizzle _ source _ => source.addTargetReads usesOld s
  | lookup _ object index => object.addTargetReads usesOld (index.addReads s)
  | lit _ | unary .. | binary .. | call .. => s

/-- The variable that an assignment to a target writes, whatever components are selected. -/
def targetVariable? : Expr → Option Variable
  | var v => some v
  | swizzle _ source _ => source.targetVariable?
  | lookup _ object _ => object.targetVariable?
  | lit _ | unary .. | binary .. | call .. => none

end Expr

def VarSet.insert? (s : VarSet) : Option Variable → VarSet
  | some v => s.insert v
  | none => s

def VarSet.addReads? (s : VarSet) : Option Expr → VarSet
  | some e => e.addReads s
  | none => s

mutual

def Stmt.reads : Stmt → VarSet
  | .declare _ init => VarSet.empty.addReads? init
  | .assign target value => target.addTargetReads false value.reads
  | .augment target _ value => target.addTargetReads true value.reads
  | .branch condition body otherwise => (condition.reads.union body.reads).union otherwise.reads
  | .loopFor v init condition update body =>
    ((update.addReads (condition.addReads init.reads)).union body.reads).erase v
  | .loopWhile condition body => condition.reads.union body.reads
  | .leave value => VarSet.empty.addReads? value
  | .block b => b.reads
  | .invoke _ args => Expr.addReadsOfList .empty args
  | .breakLoop | .continueLoop | .discard | .inline _ => .empty

def ElseChain.reads : ElseChain → VarSet
  | .done => .empty
  | .otherwise body => body.reads
  | .elseIf condition body rest => (condition.reads.union body.reads).union rest.reads

def Block.reads : Block → VarSet
  | ⟨_, _, inputs, _, body⟩ =>
    (Expr.addReadsOfList .empty (inputs.map BlockInput.value)).union body.reads

/-- The variables from outside that a region depends on. -/
def Region.reads : Region → VarSet
  | ⟨_, _, statements, declared⟩ => (Stmt.readsOfList statements).eraseAll declared

def Stmt.readsOfList : List Stmt → VarSet
  | [] => .empty
  | s :: rest => s.reads.union (Stmt.readsOfList rest)

end

mutual

def Stmt.writes : Stmt → VarSet
  | .declare v _ => VarSet.empty.insert v
  | .assign target _ | .augment target _ _ => VarSet.empty.insert? target.targetVariable?
  | .branch _ body otherwise => body.writes.union otherwise.writes
  | .loopFor v _ _ _ body => body.writes.erase v
  | .loopWhile _ body => body.writes
  | .block b => b.writes
  | .breakLoop | .continueLoop | .discard | .leave _ | .inline _ | .invoke .. => .empty

def ElseChain.writes : ElseChain → VarSet
  | .done => .empty
  | .otherwise body => body.writes
  | .elseIf _ body rest => body.writes.union rest.writes

/-- The variables that a block changes, its outputs among them. -/
def Block.writes : Block → VarSet
  | ⟨_, _, _, outputs, body⟩ => body.writes.insertAll (outputs.map BlockOutput.slot)

def Region.writes : Region → VarSet
  | ⟨_, _, statements, declared⟩ => (Stmt.writesOfList statements).eraseAll declared

def Stmt.writesOfList : List Stmt → VarSet
  | [] => .empty
  | s :: rest => s.writes.union (Stmt.writesOfList rest)

end

/-- Whether a statement assigns a variable as a whole, without using its old value. -/
def Stmt.assignsWhole (v : Variable) : Stmt → Bool
  | .assign (.var w) _ => w.id == v.id
  | _ => false

end ShaderGraph
