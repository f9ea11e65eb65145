import DirectiveMarkup.Expression.Value

/-!
# Expression trees

The abstract form of an expression. An object literal keeps its entries in source order, with
repeated keys.
-/

namespace DirectiveMarkup.Expression

/-- Operators in front of one operand. -/
inductive UnaryOp where
  | not
  | negate
  | plus
  deriving DecidableEq, Repr

/-- Operators between two operands. -/
inductive BinaryOp where
  | or
  | coalesce
  | and
  | strictEq
  | strictNe
  | eq
  | ne
  | lt
  | le
  | gt
  | ge
  | add
  | sub
  | mul
  | div
  | rem
  deriving DecidableEq, Repr

/-- An expression. -/
inductive Expr where
  | literal (value : Value)
  | ident (name : String)
  | array (items : List Expr)
  | object (entries : List (String × Expr))
  | unary (op : UnaryOp) (operand : Expr)
  | binary (op : BinaryOp) (left right : Expr)
  | conditional (test yes no : Expr)
  | member (object : Expr) (name : String)
  | index (object place : Expr)
  | call (callee : Expr) (arguments : List Expr)

instance : Inhabited Expr := ⟨.literal .null⟩

end DirectiveMarkup.Expression
