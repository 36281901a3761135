import SpectrumTape.Script.Data
import SpectrumTape.Script.Token

/-!
# Trees of scripts

What a script says, with the places that faults of running it are reported at: a call is at its
bracket, an operation at its sign, a subscript at its bracket.
-/

namespace SpectrumTape.Script

/-- An operation on two values. -/
inductive BinaryOp where
  | or
  | and
  | compare (c : Comparison)
  | add
  deriving DecidableEq, Repr, Inhabited

/-- An operation on one value. -/
inductive UnaryOp where
  | not
  | minus
  | plus
  deriving DecidableEq, Repr, Inhabited

mutual

/-- An expression. -/
inductive Expr where
  | name (pos : Position) (name : Bytes)
  | constant (pos : Position) (value : Data)
  | paren (pos : Position) (inner : Expr)
  | list (pos : Position) (items : List Expr)
  | dict (pos : Position) (entries : List Entry)
  /-- A list made by going through others. -/
  | collected (pos : Position) (body : Expr) (clauses : List Clause)
  | unary (pos : Position) (op : UnaryOp) (operand : Expr)
  | binary (left : Expr) (pos : Position) (op : BinaryOp) (right : Expr)
  | choice (condition yes no : Expr)
  | subscript (container : Expr) (pos : Position) (key : Expr)
  | call (function : Expr) (pos : Position) (arguments : List Argument)

/-- A key and its value, with the place of the colon between them. -/
inductive Entry where
  | mk (key : Expr) (pos : Position) (value : Expr)

/-- A part of a collected list: one that goes through something, or one that chooses. -/
inductive Clause where
  | each (pos : Position) (target container : Expr)
  | only (condition : Expr)

/-- An argument of a call. -/
inductive Argument where
  | positional (value : Expr)
  | named (pos : Position) (name : Bytes) (value : Expr)

end

deriving instance Repr, Inhabited for Expr, Entry, Clause, Argument

/-- A parameter of a function, with its default value if it has one. -/
structure Parameter where
  pos : Position
  name : Bytes
  default? : Option Expr := none
  deriving Repr, Inhabited

/-- A statement. -/
inductive Stmt where
  | expr (e : Expr)
  | assign (target : Expr) (value : Expr)
  | add (target : Expr) (pos : Position) (value : Expr)
  | choose (condition : Expr) (yes no : List Stmt)
  | each (pos : Position) (target container : Expr) (body : List Stmt)
  | repeat (condition : Expr) (body : List Stmt)
  | define (namePos : Position) (name : Bytes) (parameters : List Parameter) (body : List Stmt)
  | give (pos : Position) (value : Option Expr)
  | pass
  | leave (pos : Position)
  | next (pos : Position)
  deriving Repr, Inhabited

def Expr.start : Expr → Position
  | .name pos _ | .constant pos _ | .paren pos _ | .list pos _ | .dict pos _ => pos
  | .collected pos _ _ | .unary pos _ _ => pos
  | .binary left _ _ _ => left.start
  | .choice _ yes _ => yes.start
  | .subscript container _ _ => container.start
  | .call function _ _ => function.start

/-- An expression without the round brackets around it. -/
def Expr.bare : Expr → Expr
  | .paren _ inner => inner.bare
  | e => e

end SpectrumTape.Script
