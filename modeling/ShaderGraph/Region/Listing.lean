import ShaderGraph.Expr.Text
import ShaderGraph.Listing
import ShaderGraph.Region.Effects

/-!
# Listing of regions

Statements are listed in order, the regions in them one step deeper. A block
is listed with its outputs before it and its inputs at the top of its body.
-/

namespace ShaderGraph

def Variable.declaration (v : Variable) : String := v.type.text ++ " " ++ v.name

def Variable.declarationWith (v : Variable) : Option Expr → String
  | none => v.declaration
  | some init => v.declaration ++ " = " ++ init.text

def Stmt.effects (s : Stmt) : Effects := ⟨s.reads, s.writes⟩

mutual

def Stmt.lines (depth : Nat) : Stmt → List Line
  | s@(.declare v init) => [.ending depth (v.declarationWith init ++ ";") s.effects]
  | s@(.assign target value) =>
    [.ending depth (target.text ++ " = " ++ value.text ++ ";") s.effects]
  | s@(.augment target op value) =>
    [.ending depth (target.text ++ " " ++ op.symbol ++ " " ++ value.text ++ ";") s.effects]
  | s@(.branch condition body otherwise) =>
    .plain depth ("if (" ++ condition.text ++ r") {") ::
      (body.lines (depth + 1) ++ otherwise.lines depth s.effects)
  | s@(.loopFor v init condition update body) =>
    .plain depth ("for (" ++ v.declaration ++ " = " ++ init.text ++ "; " ++ condition.text ++
        "; " ++ v.name ++ " = " ++ update.text ++ r") {") ::
      (body.lines (depth + 1) ++ [.ending depth r"}" s.effects])
  | s@(.loopWhile condition body) =>
    .plain depth ("while (" ++ condition.text ++ r") {") ::
      (body.lines (depth + 1) ++ [.ending depth r"}" s.effects])
  | .breakLoop => [.ending depth "break;" Stmt.breakLoop.effects]
  | .continueLoop => [.ending depth "continue;" Stmt.continueLoop.effects]
  | .discard => [.ending depth "discard;" Stmt.discard.effects]
  | s@(.leave none) => [.ending depth "return;" s.effects]
  | s@(.leave (some value)) => [.ending depth ("return " ++ value.text ++ ";") s.effects]
  | s@(.inline code) => [.ending depth code s.effects]
  | s@(.block b) => b.lines depth s.effects
  | s@(.invoke f args) =>
    [.ending depth (f.name ++ "(" ++ Expr.argumentsText args ++ ");") s.effects]

/-- The lines of a conditional from the end of a branch on. -/
def ElseChain.lines (depth : Nat) (effects : Effects) : ElseChain → List Line
  | .done => [.ending depth r"}" effects]
  | .otherwise body =>
    .plain depth r"} else {" :: (body.lines (depth + 1) ++ [.ending depth r"}" effects])
  | .elseIf condition body rest =>
    .plain depth (r"} else if (" ++ condition.text ++ r") {") ::
      (body.lines (depth + 1) ++ rest.lines depth effects)

def Block.lines (depth : Nat) (effects : Effects) : Block → List Line
  | ⟨name, kind, inputs, outputs, body⟩ =>
    .plain depth ("// block " ++ name ++ " (" ++ kind ++ ")") ::
      (outputs.map (fun p ↦ .plain depth (p.slot.declaration ++ ";")) ++
        .plain depth r"{" ::
        (inputs.map (fun p ↦ .plain (depth + 1) (p.slot.declarationWith (some p.value) ++ ";")) ++
          (body.lines (depth + 1) ++ [.ending depth r"}" effects])))

def Region.lines (depth : Nat) : Region → List Line
  | ⟨_, _, statements, _⟩ => Stmt.linesOfList depth statements

def Stmt.linesOfList (depth : Nat) : List Stmt → List Line
  | [] => []
  | s :: rest => s.lines depth ++ Stmt.linesOfList depth rest

end

def Stmt.text (s : Stmt) : String := listingText .none (s.lines 0)

def Region.text (r : Region) : String := listingText .none (r.lines 0)

end ShaderGraph
