import DirectiveMarkup.Compile.Error

/-!
# Notices

What a compilation has to say apart from its output, and computations that say it. A
computation that fails keeps the notices it has given before.
-/

namespace DirectiveMarkup

open Markup (Node)

/-- Something that happened during a compilation. -/
inductive Notice where
  | unsupported (directive : Directive)
  | skipped (index : Nat) (error : CompileError)
  | skippedSource (index : Nat) (node : Node)
  | halted (index : Nat)
  | unparsable (error : CompileError)

/-- How much a notice matters. -/
inductive Severity where
  | error
  | warning
  | debug
  deriving DecidableEq, Repr

namespace Notice

/-- How much a notice matters. -/
def severity : Notice → Severity
  | unsupported _ => .warning
  | skipped _ _ => .error
  | skippedSource _ _ => .debug
  | halted _ => .debug
  | unparsable _ => .error

/-- The wording of a notice. -/
def message : Notice → String
  | unsupported directive =>
    "mHTML compiler: <" ++ directive.name ++
      "> is not supported yet; emitting an empty placeholder"
  | skipped _ _ => "mHTML compiler: node skipped"
  | skippedSource _ _ => "skipped node source"
  | halted _ => "halt reached, remaining top-level nodes skipped"
  | unparsable _ => "mHTML compiler: could not parse markup"

/-- The details of a notice by name. -/
def details : Notice → List (String × String)
  | unsupported _ => []
  | skipped index error => [("index", toString index), ("error", error.message)]
  | skippedSource index node => [("index", toString index), ("node", node.outer)]
  | halted index => [("index", toString index)]
  | unparsable error => [("error", error.message)]

end Notice

/-- The outcome of a computation together with the notices it gave, in order. -/
structure Reported (α : Type) where
  notices : List Notice
  outcome : Except CompileError α

namespace Reported

variable {α β : Type}

/-- Give a value and no notice. -/
def ok (value : α) : Reported α := ⟨[], .ok value⟩

/-- Fail without a notice. -/
def fail (error : CompileError) : Reported α := ⟨[], .error error⟩

/-- Do nothing but give a notice. -/
def notify (notice : Notice) : Reported Unit := ⟨[notice], .ok ()⟩

/-- An outcome without notices. -/
def ofExcept (outcome : Except CompileError α) : Reported α := ⟨[], outcome⟩

/-- Go on with the value of a computation, if it has one. -/
def andThen (first : Reported α) (next : α → Reported β) : Reported β :=
  match first.outcome with
  | .ok value => ⟨first.notices ++ (next value).notices, (next value).outcome⟩
  | .error error => ⟨first.notices, .error error⟩

instance : Monad Reported where
  pure := ok
  bind := andThen

/-- Giving a value succeeds with it. -/
@[simp] theorem outcome_pure (value : α) : (pure value : Reported α).outcome = .ok value := rfl

/-- The outcome of two computations in a row depends on their outcomes alone. -/
@[simp] theorem outcome_bind (first : Reported α) (next : α → Reported β) :
    (first >>= next).outcome = first.outcome >>= fun value => (next value).outcome := by
  change (andThen first next).outcome = _
  unfold andThen
  cases h : first.outcome <;> rfl

/-- A lifted outcome is that outcome. -/
@[simp] theorem outcome_ofExcept (outcome : Except CompileError α) :
    (ofExcept outcome).outcome = outcome := rfl

end Reported

end DirectiveMarkup
