import ShaderGraph.Variable.Set

/-!
# Listings

A program is listed as lines. A line knows how deep it stands, and the last
line of a statement knows what the statement reads and writes, which can be
shown after the code.
-/

namespace ShaderGraph

structure Effects where
  reads : VarSet
  writes : VarSet

structure Line where
  depth : Nat
  code : String
  /-- What the statement ending here reads and writes. -/
  effects : Option Effects

inductive Annotations where
  | none
  | effects
  deriving DecidableEq, Repr

/-- The names of a set; a dash stands for no names. -/
def VarSet.listText (s : VarSet) : String :=
  match s.names with
  | [] => "-"
  | first :: rest => rest.foldl (fun text name ↦ text ++ ", " ++ name) first

def Effects.comment (e : Effects) : String :=
  " // reads: " ++ e.reads.listText ++ " writes: " ++ e.writes.listText

namespace Line

def plain (depth : Nat) (code : String) : Line := ⟨depth, code, Option.none⟩

def ending (depth : Nat) (code : String) (effects : Effects) : Line := ⟨depth, code, some effects⟩

def text (a : Annotations) (l : Line) : String :=
  let code := String.ofList (List.replicate (2 * l.depth) ' ') ++ l.code
  match a, l.effects with
  | .effects, some e => code ++ e.comment
  | _, _ => code

end Line

/-- The text of a listing. Every line is ended. -/
def listingText (a : Annotations) (lines : List Line) : String :=
  String.join (lines.map (fun l ↦ l.text a ++ "\n"))

end ShaderGraph
