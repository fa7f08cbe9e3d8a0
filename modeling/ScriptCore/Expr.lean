import ScriptCore.Value

/-!
# Expressions

The abstract syntax of programs.  Everything is an expression and has a value; definitions of
functions are expressions too.  A literal holds its value itself, so a literal container is the
same container each time the literal is evaluated.
-/

namespace ScriptCore

/-- The operators between two operands. -/
inductive BinaryOperator
  | add
  | subtract
  | multiply
  | divide
  | modulo
  | equal
  | notEqual
  | less
  | lessEqual
  | greater
  | greaterEqual
  | and
  | or
  deriving DecidableEq, Repr

/-- How an operator is written. -/
def BinaryOperator.symbol : BinaryOperator → String
  | add => "+"
  | subtract => "-"
  | multiply => "*"
  | divide => "/"
  | modulo => "%"
  | equal => "=="
  | notEqual => "!="
  | less => "<"
  | lessEqual => "<="
  | greater => ">"
  | greaterEqual => ">="
  | and => "and"
  | or => "or"

/-- All operators between two operands. -/
def BinaryOperator.all : List BinaryOperator :=
  [add, subtract, multiply, divide, modulo, equal, notEqual, less, lessEqual, greater, greaterEqual,
    and, or]

/-- The operator that is written in a given way. -/
def BinaryOperator.ofSymbol? (symbol : String) : Option BinaryOperator :=
  all.find? fun operator => operator.symbol == symbol

/-- The operators before one operand. -/
inductive UnaryOperator
  | negate
  | not
  deriving DecidableEq, Repr

/-- Expressions. -/
inductive Expr
  | literal (value : Value)
  | name (name : String)
  /-- Assigns through the links of the current scope, or makes a local binding. -/
  | assign (name : String) (value : Expr)
  /-- Makes a local binding, whatever the name meant before. -/
  | define (name : String) (value : Expr)
  | unary (operator : UnaryOperator) (operand : Expr)
  | binary (operator : BinaryOperator) (left right : Expr)
  /-- Without an alternative the value is null if the condition does not hold. -/
  | conditional (condition consequence : Expr) (alternative : Option Expr)
  | block (body : List Expr)
  | list (items : List Expr)
  | dict (entries : List (Expr × Expr))
  /-- Defines a function in the current scope and yields it. -/
  | function (name : String) (parameters : List (String × Option Expr)) (body : Expr)
      (doc : Option String)
  | call (callee : Expr) (positional : List Expr) (named : List (String × Expr))
  | getAttribute (object : Expr) (name : String)
  | setAttribute (object : Expr) (name : String) (value : Expr)
  | callMethod (receiver : Expr) (name : String) (positional : List Expr)
      (named : List (String × Expr))
  | raise (label : String) (message : Expr)
  /-- Evaluates the body; if it fails, the handler is evaluated with the error bound to a name. -/
  | handle (body : Expr) (binding : String) (handler : Expr)

namespace Expr

instance : Inhabited Expr := ⟨literal .null⟩

/-- The literal of an integer. -/
def int (number : Int64) : Expr :=
  literal (.integer number)

/-- A conditional without an alternative. -/
def when (condition consequence : Expr) : Expr :=
  conditional condition consequence none

/-- A call of a named function with positional arguments. -/
def callName (callee : String) (positional : List Expr) : Expr :=
  call (name callee) positional []

/-- The definition of a function without documentation whose parameters have no defaults. -/
def functionOf (name : String) (parameters : List String) (body : Expr) : Expr :=
  function name (parameters.map fun parameter => (parameter, none)) body none

/-- A function `f(n, acc = 0)` that sums the numbers up to `n` on top of `acc` by calling itself in
tail position. -/
def tailSum (f : String) : Expr :=
  function f [("n", none), ("acc", some (int 0))]
    (conditional (binary .greater (name "n") (int 0))
      (callName f [binary .subtract (name "n") (int 1), binary .add (name "acc") (name "n")])
      (some (name "acc")))
    none

/-- A function `f(n)` that sums the numbers up to `n` by calling itself in an operand, so that the
calls nest. -/
def nestedSum (f : String) : Expr :=
  functionOf f ["n"]
    (conditional (binary .greater (name "n") (int 0))
      (binary .add (name "n") (callName f [binary .subtract (name "n") (int 1)]))
      (some (int 0)))

end Expr

end ScriptCore
