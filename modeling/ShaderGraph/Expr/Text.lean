import ShaderGraph.Expr

/-!
# Text of expressions

Every unary and binary operation is in brackets, so that the text depends on
no precedence. Swizzles and lookups follow their operand.
-/

namespace ShaderGraph

namespace Expr

mutual

def text : Expr → String
  | lit value => value.text
  | var v => v.name
  | unary op a => op.symbol ++ "(" ++ a.text ++ ")"
  | binary _ op a b => "(" ++ a.text ++ " " ++ op.symbol ++ " " ++ b.text ++ ")"
  | call _ callee args => callee.name ++ "(" ++ commaSeparated (textsOfList args) ++ ")"
  | swizzle _ source mask => source.text ++ mask.text
  | lookup _ object index => object.text ++ "[" ++ index.text ++ "]"

def textsOfList : List Expr → List String
  | [] => []
  | e :: rest => e.text :: textsOfList rest

end

def argumentsText (args : List Expr) : String := commaSeparated (textsOfList args)

theorem textsOfList_eq_map (args : List Expr) : textsOfList args = args.map text := by
  induction args with
  | nil => simp [textsOfList]
  | cons e rest ih => simp [textsOfList, ih]

end Expr

end ShaderGraph
