import ScriptCore.Expr

/-!
# Literals in expressions

A literal holds its value itself, so an expression can hold on to a container: to the one in the
literal, wherever in the expression the literal stands.  `Expr.Mentions` says which values these
are, and `Expr.Fit usable` that all of them are of some kind.

Evaluation never looks at more than the parts of an expression, so a property of all literals is
handed down from an expression to each of its parts (`Expr.Fit.child`).  For the forms that have
lists among their parts, what is handed down is said once here in the shape in which evaluation goes
through the lists.
-/

namespace ScriptCore.Expr

/-- The expressions an expression is made of. -/
def children : Expr → List Expr
  | literal _ => []
  | name _ => []
  | assign _ value => [value]
  | define _ value => [value]
  | unary _ operand => [operand]
  | binary _ left right => [left, right]
  | conditional condition consequence alternative =>
    condition :: consequence :: alternative.toList
  | block body => body
  | list items => items
  | dict entries => entries.flatMap fun (key, value) => [key, value]
  | function _ parameters body _ => body :: parameters.filterMap (·.2)
  | call callee positional named => callee :: positional ++ named.map (·.2)
  | getAttribute object _ => [object]
  | setAttribute object _ value => [object, value]
  | callMethod receiver _ positional named => receiver :: positional ++ named.map (·.2)
  | raise _ message => [message]
  | handle body _ handler => [body, handler]

/-- A value stands in a literal of an expression. -/
inductive Mentions : Expr → Value → Prop
  | literal (value : Value) : Mentions (.literal value) value
  | child {expr part : Expr} {value : Value} (hchild : part ∈ expr.children)
      (hpart : Mentions part value) : Mentions expr value

/-- All literals of an expression are of some kind. -/
def Fit (usable : Value → Prop) (expr : Expr) : Prop :=
  ∀ value, expr.Mentions value → usable value

variable {usable : Value → Prop} {expr : Expr}

theorem Fit.child (hfit : expr.Fit usable) {part : Expr} (hchild : part ∈ expr.children) :
    part.Fit usable :=
  fun value hvalue => hfit value (.child hchild hvalue)

/-! ## The parts of an expression -/

theorem Fit.binary {operator : BinaryOperator} {left right : Expr}
    (hfit : (Expr.binary operator left right).Fit usable) : left.Fit usable ∧ right.Fit usable :=
  ⟨hfit.child List.mem_cons_self, hfit.child (List.mem_cons_of_mem _ List.mem_cons_self)⟩

theorem Fit.conditional {condition consequence : Expr} {alternative : Option Expr}
    (hfit : (Expr.conditional condition consequence alternative).Fit usable) :
    condition.Fit usable ∧ consequence.Fit usable ∧
      ∀ other, alternative = some other → other.Fit usable := by
  refine ⟨hfit.child ?_, hfit.child ?_, ?_⟩
  · simp [children]
  · simp [children]
  · rintro other rfl
    exact hfit.child (by simp [children])

theorem Fit.dict {entries : List (Expr × Expr)} (hfit : (Expr.dict entries).Fit usable)
    {entry : Expr × Expr} (hentry : entry ∈ entries) :
    entry.1.Fit usable ∧ entry.2.Fit usable := by
  constructor
  · exact hfit.child (List.mem_flatMap.2 ⟨entry, hentry, List.mem_cons_self⟩)
  · exact hfit.child (List.mem_flatMap.2
      ⟨entry, hentry, List.mem_cons_of_mem _ List.mem_cons_self⟩)

theorem Fit.function {name : String} {parameters : List (String × Option Expr)} {body : Expr}
    {doc : Option String} (hfit : (Expr.function name parameters body doc).Fit usable) :
    body.Fit usable ∧ ∀ parameter ∈ parameters, ∀ default, parameter.2 = some default →
      default.Fit usable := by
  refine ⟨hfit.child List.mem_cons_self, fun parameter hparameter default hdefault => ?_⟩
  have hmem : default ∈ parameters.filterMap (·.2) :=
    List.mem_filterMap.2 ⟨parameter, hparameter, hdefault⟩
  exact hfit.child (List.mem_cons_of_mem _ hmem)

theorem Fit.setAttribute {object value : Expr} {name : String}
    (hfit : (Expr.setAttribute object name value).Fit usable) :
    object.Fit usable ∧ value.Fit usable :=
  ⟨hfit.child List.mem_cons_self, hfit.child (List.mem_cons_of_mem _ List.mem_cons_self)⟩

theorem Fit.handle {body handler : Expr} {binding : String}
    (hfit : (Expr.handle body binding handler).Fit usable) :
    body.Fit usable ∧ handler.Fit usable :=
  ⟨hfit.child List.mem_cons_self, hfit.child (List.mem_cons_of_mem _ List.mem_cons_self)⟩

/-- What is called and what it is called with are parts of a call, by value as by method. -/
theorem Fit.called {first : Expr} {positional : List Expr} {named : List (String × Expr)}
    (hfit : expr.Fit usable) (hchildren : expr.children = first :: positional ++ named.map (·.2)) :
    first.Fit usable ∧ (∀ expr ∈ positional, expr.Fit usable) ∧
      ∀ entry ∈ named, entry.2.Fit usable := by
  refine ⟨hfit.child ?_, fun other hother => hfit.child ?_, fun entry hentry => hfit.child ?_⟩
  · simp [hchildren]
  · simp [hchildren, hother]
  · rw [hchildren]
    exact List.mem_append_right _ (List.mem_map.2 ⟨entry, hentry, rfl⟩)

theorem Fit.call {callee : Expr} {positional : List Expr} {named : List (String × Expr)}
    (hfit : (Expr.call callee positional named).Fit usable) :
    callee.Fit usable ∧ (∀ expr ∈ positional, expr.Fit usable) ∧
      ∀ entry ∈ named, entry.2.Fit usable :=
  hfit.called rfl

theorem Fit.callMethod {receiver : Expr} {name : String} {positional : List Expr}
    {named : List (String × Expr)}
    (hfit : (Expr.callMethod receiver name positional named).Fit usable) :
    receiver.Fit usable ∧ (∀ expr ∈ positional, expr.Fit usable) ∧
      ∀ entry ∈ named, entry.2.Fit usable :=
  hfit.called rfl

end ScriptCore.Expr
