import DirectiveMarkup.Expression.Grammar
import DirectiveMarkup.Expression.Method

/-!
# Evaluation

The value of an expression in a scope. `&&`, `||` and `??` evaluate their right side only where
it decides the value, and a conditional only the branch that it chooses. All other parts are
evaluated from left to right, and the first failure is the failure of the whole. Only a method
can be called.
-/

namespace DirectiveMarkup.Expression

/-- An operand as a number, for the operator of that spelling. -/
def operandNumber (operator : String) (value : Value) : Except EvalError Binary64 :=
  match value.toBinary64? with
  | some x => .ok x
  | none => .error (.notNumeric operator value.kind)

/-- An arithmetic operation on the numbers of two values. -/
def arithmetic (operator : String) (f : Binary64 → Binary64 → Binary64) (a b : Value) :
    Except EvalError Value := do
  let x ← operandNumber operator a
  let y ← operandNumber operator b
  Value.ofBinary64 (f x y)

/-- Strings, arrays and objects make an addition a concatenation of texts. -/
def isTextual : Value → Bool
  | .string _ | .array _ | .object _ => true
  | _ => false

/-- Addition of numbers, or concatenation of texts. -/
def addition (a b : Value) : Except EvalError Value :=
  if isTextual a || isTextual b then .ok (.string (a.display ++ b.display))
  else arithmetic "+" (· + ·) a b

/-- True when two values compare, and in a way that the test accepts. -/
def comparison (test : Ordering → Bool) (a b : Value) : Value :=
  .bool ((a.compare? b).any test)

/-- An operator in front of a value. -/
def applyUnary : UnaryOp → Value → Except EvalError Value
  | .not, value => .ok (.bool (!value.truthy))
  | .negate, value => operandNumber "-" value >>= fun x => Value.ofBinary64 (-x)
  | .plus, value => operandNumber "+" value >>= Value.ofBinary64

/-- An operator between two values. -/
def applyBinary : BinaryOp → Value → Value → Except EvalError Value
  | .or, a, b => .ok (if a.truthy then a else b)
  | .coalesce, a, b => .ok (if a.kind = .null then b else a)
  | .and, a, b => .ok (if a.truthy then b else a)
  | .strictEq, a, b => .ok (.bool (a.strictEquals b))
  | .strictNe, a, b => .ok (.bool (!a.strictEquals b))
  | .eq, a, b => .ok (.bool (a.looseEquals b))
  | .ne, a, b => .ok (.bool (!a.looseEquals b))
  | .lt, a, b => .ok (comparison Ordering.isLT a b)
  | .le, a, b => .ok (comparison Ordering.isLE a b)
  | .gt, a, b => .ok (comparison Ordering.isGT a b)
  | .ge, a, b => .ok (comparison Ordering.isGE a b)
  | .add, a, b => addition a b
  | .sub, a, b => arithmetic "-" (· - ·) a b
  | .mul, a, b => arithmetic "*" (· * ·) a b
  | .div, a, b => arithmetic "/" (· / ·) a b
  | .rem, a, b => arithmetic "%" (· % ·) a b

/-- True when the left side of an operator is its value, whatever stands on the right. -/
def leftDecides : BinaryOp → Value → Bool
  | .or, a => a.truthy
  | .coalesce, a => a.kind != .null
  | .and, a => !a.truthy
  | _, _ => false

mutual

/-- The value of an expression in a scope. -/
def evaluate (scope : Scope) : Expr → Except EvalError Value
  | .literal value => .ok value
  | .ident name =>
    match scope.find? name with
    | some value => .ok value
    | none => .error (.undefinedVariable name)
  | .array items => return .array (← evaluateAll scope items)
  | .object entries => return .object (Fields.ofBindings (← evaluateEntries scope entries))
  | .unary op operand => do applyUnary op (← evaluate scope operand)
  | .binary op left right => do
    let a ← evaluate scope left
    if leftDecides op a then return a
    let b ← evaluate scope right
    applyBinary op a b
  | .conditional test yes no => do
    let chosen ← evaluate scope test
    if chosen.truthy then evaluate scope yes else evaluate scope no
  | .member object name => do member (← evaluate scope object) name
  | .index object place => do
    let value ← evaluate scope object
    let place ← evaluate scope place
    itemAt value place
  | .call (.member object method) arguments => do
    let receiver ← evaluate scope object
    let values ← evaluateAll scope arguments
    callMethod receiver method values
  | .call _ _ => .error .notCallable

/-- The values of several expressions. -/
def evaluateAll (scope : Scope) : List Expr → Except EvalError (List Value)
  | [] => .ok []
  | expr :: rest => do
    let value ← evaluate scope expr
    let values ← evaluateAll scope rest
    return value :: values

/-- The values of the entries of an object, with their keys. -/
def evaluateEntries (scope : Scope) :
    List (String × Expr) → Except EvalError (List (String × Value))
  | [] => .ok []
  | (key, expr) :: rest => do
    let value ← evaluate scope expr
    let values ← evaluateEntries scope rest
    return (key, value) :: values

end

/-- Where the left side of `&&`, `||` or `??` does not decide, the right side is what is kept. -/
theorem applyBinary_of_not_leftDecides {op : BinaryOp} (hop : op = .or ∨ op = .coalesce ∨ op = .and)
    {a : Value} (h : leftDecides op a = false) (b : Value) : applyBinary op a b = .ok b := by
  rcases hop with rfl | rfl | rfl <;> simp_all [leftDecides, applyBinary]

/-- The value of `&&`, `||` and `??` is that of the left side where it decides, and else that of the
right side, whose failure is then the failure of the whole. -/
theorem evaluate_shortCircuit {op : BinaryOp} (hop : op = .or ∨ op = .coalesce ∨ op = .and)
    {scope : Scope} {left : Expr} {a : Value} (hleft : evaluate scope left = .ok a) (right : Expr) :
    evaluate scope (.binary op left right) =
      if leftDecides op a then .ok a else evaluate scope right := by
  rw [evaluate, hleft]
  change (if leftDecides op a then Except.ok a else evaluate scope right >>= applyBinary op a) = _
  cases hdecides : leftDecides op a with
  | true => rfl
  | false =>
    simp only [Bool.false_eq_true, ↓reduceIte]
    cases evaluate scope right with
    | error error => rfl
    | ok b => exact applyBinary_of_not_leftDecides hop hdecides b

/-- Read the source of an expression and evaluate it. -/
def evaluateSource (source : String) (scope : Scope) : Except EvalError Value := do
  evaluate scope (← parse source)

end DirectiveMarkup.Expression
