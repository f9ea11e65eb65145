import DirectiveMarkup.Compile.Element

/-!
# Compiling a document

The top-level nodes of a document are compiled one by one. A node that fails is left out and
reported, and the others are not affected. A halt at the top level ends the document there.
-/

namespace DirectiveMarkup

open Expression (Scope)
open Markup (Node)

/-- A top-level node that was left out, by its position. -/
structure Failure where
  index : Nat
  error : CompileError
  deriving DecidableEq, Repr

/-- What the top-level nodes of a document compile to. -/
structure Pass where
  pieces : List String
  failures : List Failure
  halted : Bool
  notices : List Notice

/-- The output of a document with what was left out of it. -/
structure Report where
  html : String
  failures : List Failure
  halted : Bool
  notices : List Notice

/-- The comment in front of output that tells what made it. -/
def brandingComment : String := "<!-- Compiled mHTML (magical HTML) by mhtml -->"

/-- Put the comment in front of output, if asked to. -/
def brand (branding : Bool) (html : String) : String :=
  if branding then brandingComment ++ html else html

/-- Compile top-level nodes, the first of which has the position `index`. -/
def compileTop (compile : Node → Reported Fragment) : (index : Nat) → List Node → Pass
  | _, [] => ⟨[], [], false, []⟩
  | index, node :: rest =>
    let result := compile node
    match result.outcome with
    | .ok .halt => ⟨[], [], true, result.notices ++ [.halted index]⟩
    | .ok (.markup text) =>
      let pass := compileTop compile (index + 1) rest
      ⟨text :: pass.pieces, pass.failures, pass.halted, result.notices ++ pass.notices⟩
    | .error error =>
      let pass := compileTop compile (index + 1) rest
      ⟨pass.pieces, ⟨index, error⟩ :: pass.failures, pass.halted,
        result.notices ++ .skipped index error :: .skippedSource index node :: pass.notices⟩

/-- Compile a document in an ambient scope. -/
def Compiler.compile (compiler : Compiler) (scope : Scope) (branding : Bool) (markup : String) :
    Report :=
  match compiler.parse (Text.trim markup) with
  | .error error => ⟨brand branding "", [⟨0, error⟩], false, [.unparsable error]⟩
  | .ok nodes =>
    let pass := compileTop (compiler.compileNode scope) 0 nodes
    ⟨brand branding (Text.trim (String.join pass.pieces)), pass.failures, pass.halted,
      pass.notices⟩

/-- Compile a document with the standard compiler. -/
def compileMarkup (markup : String) (scope : Scope) (branding : Bool) : String :=
  ((Compiler.standard defaultMaxDepth).compile scope branding markup).html

end DirectiveMarkup
