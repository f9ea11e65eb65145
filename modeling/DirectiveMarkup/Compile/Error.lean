import DirectiveMarkup.Directive
import DirectiveMarkup.Expression.Error

/-!
# Failures of compilation

Why a node, or a whole document, could not be compiled, with the wording of each cause.
-/

namespace DirectiveMarkup

open Expression (EvalError Kind)

/-- Why compilation failed. -/
inductive CompileError where
  | expression (directive : Directive) (attr : String) (cause : EvalError)
  | interpolation (directive : Directive) (cause : EvalError)
  | wrongKind (directive : Directive) (attr : String) (expected found : Kind)
  | nestingTooDeep (limit : Nat)
  | unparsable (reason : String)
  deriving DecidableEq, Repr

namespace CompileError

/-- The wording of a complaint about the kind of an attribute's value. -/
def kindComplaint (attr : String) (expected found : Kind) : String :=
  "'" ++ attr ++ "' must evaluate to an " ++ expected.name ++ ", got " ++ found.name

/-- The wording of a failure. -/
def message : CompileError → String
  | expression directive attr cause =>
    "Expression error in <" ++ directive.name ++ "> attribute '" ++ attr ++ "': " ++
      cause.message
  | interpolation directive cause =>
    "Interpolation error in <" ++ directive.name ++ ">: " ++ cause.message
  | wrongKind directive attr expected found =>
    "Invalid <" ++ directive.name ++ "> directive: " ++ kindComplaint attr expected found
  | nestingTooDeep limit => "Maximum nesting depth (" ++ toString limit ++ ") exceeded"
  | unparsable reason => "Markup parse error: " ++ reason

end CompileError

end DirectiveMarkup
