import DirectiveMarkup.Expression.Evaluate

/-!
# Evaluation without short cuts

Eager evaluation evaluates every part of an expression, the branch of a conditional that is not
chosen and the right side of `&&`, `||` and `??` among them, and applies every operator to the values
of both sides. It fails when any part fails. Evaluation as it is leaves parts out, but only such
that do not matter: where eager evaluation has a value, evaluation has the same, so it fails only
where eager evaluation fails as well.
-/

namespace DirectiveMarkup.Expression

/-! ## Eager evaluation -/

mutual

/-- The value of an expression when all of its parts are evaluated. -/
def evaluateEagerly (scope : Scope) : Expr → Except EvalError Value
  | .literal value => .ok value
  | .ident name =>
    match scope.find? name with
    | some value => .ok value
    | none => .error (.undefinedVariable name)
  | .array items => return .array (← evaluateAllEagerly scope items)
  | .object entries => return .object (Fields.ofBindings (← evaluateEntriesEagerly scope entries))
  | .unary op operand => do applyUnary op (← evaluateEagerly scope operand)
  | .binary op left right => do
    let a ← evaluateEagerly scope left
    let b ← evaluateEagerly scope right
    applyBinary op a b
  | .conditional test yes no => do
    let chosen ← evaluateEagerly scope test
    let a ← evaluateEagerly scope yes
    let b ← evaluateEagerly scope no
    return if chosen.truthy then a else b
  | .member object name => do member (← evaluateEagerly scope object) name
  | .index object place => do
    let value ← evaluateEagerly scope object
    let place ← evaluateEagerly scope place
    itemAt value place
  | .call (.member object method) arguments => do
    let receiver ← evaluateEagerly scope object
    let values ← evaluateAllEagerly scope arguments
    callMethod receiver method values
  | .call callee arguments => do
    let _ ← evaluateEagerly scope callee
    let _ ← evaluateAllEagerly scope arguments
    .error .notCallable

/-- The values of several expressions when all of their parts are evaluated. -/
def evaluateAllEagerly (scope : Scope) : List Expr → Except EvalError (List Value)
  | [] => .ok []
  | expr :: rest => do
    let value ← evaluateEagerly scope expr
    let values ← evaluateAllEagerly scope rest
    return value :: values

/-- The values of the entries of an object when all of their parts are evaluated. -/
def evaluateEntriesEagerly (scope : Scope) :
    List (String × Expr) → Except EvalError (List (String × Value))
  | [] => .ok []
  | (key, expr) :: rest => do
    let value ← evaluateEagerly scope expr
    let values ← evaluateEntriesEagerly scope rest
    return (key, value) :: values

end

/-! ## Refinement -/

section Refinement

variable {ε α β : Type}

/-- Whatever value the first computation has, the second has it too. -/
def Refines (strict lax : Except ε α) : Prop :=
  ∀ value, strict = .ok value → lax = .ok value

/-- A computation has its own value. -/
theorem Refines.refl (computation : Except ε α) : Refines computation computation :=
  fun _ h => h

/-- A computation that fails has no value. -/
theorem refines_of_error {error : ε} {strict lax : Except ε α} (h : strict = .error error) :
    Refines strict lax := by
  intro value hvalue
  rw [h] at hvalue
  exact nomatch hvalue

/-- Computations in a row are refined one by one. -/
theorem Refines.bind {strict lax : Except ε α} {strictNext laxNext : α → Except ε β}
    (hfirst : Refines strict lax) (hnext : ∀ value, Refines (strictNext value) (laxNext value)) :
    Refines (strict >>= strictNext) (lax >>= laxNext) := by
  cases hstrict : strict with
  | error error => exact refines_of_error rfl
  | ok value =>
    rw [hfirst value hstrict]
    exact hnext value

/-- A value that is not used may be left out. -/
theorem refines_bind_left {skipped : Except ε α} {strict : α → Except ε β} {lax : Except ε β}
    (h : ∀ value, Refines (strict value) lax) : Refines (skipped >>= strict) lax := by
  cases skipped with
  | error error => exact refines_of_error rfl
  | ok value => exact h value

/-- Where the second of two computations fails, the first does. -/
theorem Refines.exists_error {strict lax : Except ε α} (h : Refines strict lax) {error : ε}
    (herror : lax = .error error) : ∃ other, strict = .error other := by
  cases hstrict : strict with
  | error other => exact ⟨other, rfl⟩
  | ok value =>
    have hlax := h value hstrict
    rw [herror] at hlax
    exact nomatch hlax

end Refinement

/-- An operator whose left side decides has that side for its value, whatever the right side is. -/
theorem applyBinary_of_leftDecides {op : BinaryOp} {a : Value} (h : leftDecides op a) (b : Value) :
    applyBinary op a b = .ok a := by
  cases op with
  | or => simp only [leftDecides] at h; simp [applyBinary, h]
  | and => simp only [leftDecides, Bool.not_eq_true'] at h; simp [applyBinary, h]
  | coalesce => simp only [leftDecides, bne_iff_ne] at h; simp [applyBinary, h]
  | _ => simp [leftDecides] at h

/-- The right side of an operator may be left out where the left side decides. -/
theorem refines_binary (op : BinaryOp) {strictLeft laxLeft strictRight laxRight : Except EvalError Value}
    (hleft : Refines strictLeft laxLeft) (hright : Refines strictRight laxRight) :
    Refines
      (do
        let a ← strictLeft
        let b ← strictRight
        applyBinary op a b)
      (do
        let a ← laxLeft
        if leftDecides op a then return a
        let b ← laxRight
        applyBinary op a b) := by
  refine hleft.bind fun a => ?_
  by_cases hdecides : leftDecides op a
  · rw [if_pos hdecides]
    refine refines_bind_left fun b => ?_
    rw [applyBinary_of_leftDecides hdecides b]
    exact .refl _
  · rw [if_neg hdecides]
    exact hright.bind fun b => .refl _

/-- The branch of a conditional that is not chosen may be left out. -/
theorem refines_conditional {strictTest laxTest strictYes laxYes strictNo laxNo : Except EvalError Value}
    (htest : Refines strictTest laxTest) (hyes : Refines strictYes laxYes)
    (hno : Refines strictNo laxNo) :
    Refines
      (do
        let chosen ← strictTest
        let a ← strictYes
        let b ← strictNo
        return if chosen.truthy then a else b)
      (do
        let chosen ← laxTest
        if chosen.truthy then laxYes else laxNo) := by
  refine htest.bind fun chosen => ?_
  by_cases htruthy : chosen.truthy
  · rw [if_pos htruthy, ← bind_pure laxYes]
    refine hyes.bind fun a => refines_bind_left fun b => ?_
    rw [if_pos htruthy]
    exact .refl _
  · rw [if_neg htruthy, ← bind_pure laxNo]
    refine refines_bind_left fun a => hno.bind fun b => ?_
    rw [if_neg htruthy]
    exact .refl _

/-! ## Every expression -/

section Evaluation

variable (scope : Scope)

mutual

/-- Where eager evaluation has a value, evaluation has the same. -/
theorem refines_evaluate (expr : Expr) :
    Refines (evaluateEagerly scope expr) (evaluate scope expr) := by
  match expr with
  | .literal value => exact .refl _
  | .ident name => exact .refl _
  | .array items =>
    rw [evaluateEagerly, evaluate]
    exact (refines_evaluateAll items).bind fun values => .refl _
  | .object entries =>
    rw [evaluateEagerly, evaluate]
    exact (refines_evaluateEntries entries).bind fun values => .refl _
  | .unary op operand =>
    rw [evaluateEagerly, evaluate]
    exact (refines_evaluate operand).bind fun value => .refl _
  | .binary op left right =>
    rw [evaluateEagerly, evaluate]
    exact refines_binary op (refines_evaluate left) (refines_evaluate right)
  | .conditional test yes no =>
    rw [evaluateEagerly, evaluate]
    exact refines_conditional (refines_evaluate test) (refines_evaluate yes) (refines_evaluate no)
  | .member object name =>
    rw [evaluateEagerly, evaluate]
    exact (refines_evaluate object).bind fun value => .refl _
  | .index object place =>
    rw [evaluateEagerly, evaluate]
    refine (refines_evaluate object).bind fun value => ?_
    exact (refines_evaluate place).bind fun place => .refl _
  | .call (.member object method) arguments =>
    rw [evaluateEagerly, evaluate]
    refine (refines_evaluate object).bind fun receiver => ?_
    exact (refines_evaluateAll arguments).bind fun values => .refl _
  | .call (.literal _) _ | .call (.ident _) _ | .call (.array _) _ | .call (.object _) _
  | .call (.unary _ _) _ | .call (.binary _ _ _) _ | .call (.conditional _ _ _) _
  | .call (.index _ _) _ | .call (.call _ _) _ =>
    -- Only methods can be called, so eager evaluation fails here as well.
    rw [evaluateEagerly]
    · refine refines_bind_left fun _ => refines_bind_left fun _ => ?_
      exact refines_of_error rfl
    · exact nofun

/-- The values of several expressions are refined one by one. -/
theorem refines_evaluateAll (exprs : List Expr) :
    Refines (evaluateAllEagerly scope exprs) (evaluateAll scope exprs) := by
  match exprs with
  | [] => exact .refl _
  | expr :: rest =>
    rw [evaluateAllEagerly, evaluateAll]
    refine (refines_evaluate expr).bind fun value => ?_
    exact (refines_evaluateAll rest).bind fun values => .refl _

/-- The values of the entries of an object are refined one by one. -/
theorem refines_evaluateEntries (entries : List (String × Expr)) :
    Refines (evaluateEntriesEagerly scope entries) (evaluateEntries scope entries) := by
  match entries with
  | [] => exact .refl _
  | (key, expr) :: rest =>
    rw [evaluateEntriesEagerly, evaluateEntries]
    refine (refines_evaluate expr).bind fun value => ?_
    exact (refines_evaluateEntries rest).bind fun values => .refl _

end

end Evaluation

/-- Evaluation refines eager evaluation: it has the same value wherever eager evaluation has one, and
fails only where eager evaluation fails. -/
theorem evaluate_refines_evaluateEagerly (scope : Scope) (expr : Expr) :
    (∀ value, evaluateEagerly scope expr = .ok value → evaluate scope expr = .ok value) ∧
      ∀ error, evaluate scope expr = .error error →
        ∃ other, evaluateEagerly scope expr = .error other := by
  have hrefines := refines_evaluate scope expr
  exact ⟨hrefines, fun error herror => hrefines.exists_error herror⟩

/-- A conditional whose test needs both sides of `??`, and an access to what `&&` gives without its
right side, which is not defined. -/
theorem evaluate_refines_evaluateEagerly_shortCuts :
    let scope : Scope := .ofBindings [("a", .null), ("b", .string "x")]
    let chosen : Expr :=
      .conditional (.binary .coalesce (.ident "a") (.ident "b")) (.array [.ident "b"])
        (.unary .not (.ident "a"))
    let failing : Expr := .member (.binary .and (.ident "a") (.ident "c")) "d"
    evaluateEagerly scope chosen = .ok (.array [.string "x"]) ∧
      evaluate scope chosen = .ok (.array [.string "x"]) ∧
      evaluate scope failing = .error (.propertyOfNull "d") ∧
      ∃ other, evaluateEagerly scope failing = .error other := by
  intro scope chosen failing
  have heager : evaluateEagerly scope chosen = .ok (.array [.string "x"]) := rfl
  have hfails : evaluate scope failing = .error (.propertyOfNull "d") := rfl
  exact ⟨heager, (evaluate_refines_evaluateEagerly scope chosen).1 _ heager, hfails,
    (evaluate_refines_evaluateEagerly scope failing).2 _ hfails⟩

end DirectiveMarkup.Expression
