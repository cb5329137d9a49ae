import ShaderGraph.Program
import ShaderGraph.Region.Listing

/-!
# Listing of programs

The shared variables come first, then the stages. A stage lists its variables,
its functions and last its main function.
-/

namespace ShaderGraph

def Variable.line (depth : Nat) (qualifier : String) (v : Variable) : Line :=
  .plain depth (qualifier ++ " " ++ v.declaration ++ ";")

def Line.blank : Line := .plain 0 ""

def Function.head (f : Function) : String :=
  (match f.signature.result with
    | some t => t.text
    | none => "void") ++
    " " ++ f.signature.name ++ "(" ++ commaSeparated (f.args.map Variable.declaration) ++ r") {"

def Function.lines (depth : Nat) (f : Function) : List Line :=
  .plain depth f.head ::
    (f.body.lines (depth + 1) ++
      (match f.result with
        | some value => [.plain (depth + 1) ("return " ++ value.text ++ ";")]
        | none => []) ++
      [.plain depth r"}"])

def Stage.lines (s : Stage) : List Line :=
  .plain 0 (s.kind.text ++ r" stage {") ::
    (s.attributes.map (Variable.line 1 "in") ++ s.outputs.map (Variable.line 1 "out") ++
      s.builtins.map (Variable.line 1 "builtin") ++
      (s.functions ++ s.main.toList).flatMap (fun f ↦ .blank :: f.lines 1) ++
      [.plain 0 r"}"])

def Program.lines (p : Program) : List Line :=
  .plain 0 ("program " ++ p.name) ::
    (p.resources.uniforms.map (Variable.line 0 "uniform") ++
      p.resources.interStage.map (Variable.line 0 "varying") ++
      p.stages.flatMap (fun s ↦ .blank :: s.lines))

def Program.text (a : Annotations) (p : Program) : String := listingText a p.lines

end ShaderGraph
