import DirectiveMarkup.Expression.Value

/-!
# Failures of expressions

Why an expression could not be read or evaluated, with the wording of each cause.
-/

namespace DirectiveMarkup.Expression

/-- The deepest nesting of brackets, signs and conditionals that is accepted. -/
def maxNesting : Nat := 32

/-- The largest number of operators and accesses that is accepted. -/
def maxOperators : Nat := 256

/-- What is wrong at a place in the source of an expression. -/
inductive Fault where
  | unexpected (c : Char)
  | unexpectedEnd
  | tooDeep
  | tooManyOperators
  deriving DecidableEq, Repr

/-- The wording of a fault. -/
def Fault.message : Fault → String
  | unexpected c => "unexpected '" ++ c.toString ++ "'"
  | unexpectedEnd => "unexpected end of expression"
  | tooDeep => "expression nests deeper than " ++ toString maxNesting ++ " levels"
  | tooManyOperators => "expression has more than " ++ toString maxOperators ++ " operators"

/-- Why an expression failed. The offset of a fault counts bytes of the source. -/
inductive EvalError where
  | malformed (expression : String) (offset : Nat) (fault : Fault)
  | undefinedVariable (name : String)
  | propertyOfNull (property : String)
  | unknownMethod (method : String) (receiver : Kind)
  | notCallable
  | notNumeric (operator : String) (operand : Kind)
  | invalidRepeatCount (count : Binary64)
  | repeatTooLong (count : Binary64)
  | nonFinite
  deriving DecidableEq, Repr

/-- The wording of a failure. -/
def EvalError.message : EvalError → String
  | malformed expression offset fault =>
    "Syntax error in expression '" ++ expression ++ "' at offset " ++ toString offset ++ ": " ++
      fault.message
  | undefinedVariable name => "'" ++ name ++ "' is not defined"
  | propertyOfNull property => "Cannot read property '" ++ property ++ "' of null"
  | unknownMethod method receiver =>
    "'" ++ method ++ "' is not a function on " ++ receiver.name
  | notCallable => "Expression is not callable: only method calls are supported"
  | notNumeric operator operand =>
    "Type error: operator '" ++ operator ++ "' cannot be applied to " ++ operand.name
  | invalidRepeatCount count => "Type error: invalid repeat count " ++ count.toText
  | repeatTooLong count =>
    "Type error: repeat count " ++ count.toText ++ " exceeds the maximum string length"
  | nonFinite => "Arithmetic produced a non-finite number"

end DirectiveMarkup.Expression
