import ScriptCore.Key
import ScriptCore.Value

/-!
# Parameters and arguments

A table of parameters says, in order of declaration, which arguments a callee takes and what
stands in for those that are left out.  Functions and struct templates share it.

`Parameters.bind` matches arguments against the table.  Positional arguments fill the parameters
in order, named ones the parameters of their name, and defaults what is left; the first thing
that does not fit is the error.
-/

namespace ScriptCore

/-- What stands in for an argument that is left out. -/
inductive ParameterDefault
  | required
  | value (value : Value)
  deriving DecidableEq

instance : Inhabited ParameterDefault := ⟨.required⟩

/-- A table of parameters in order of declaration. -/
structure Parameters where
  table : NameTable ParameterDefault

/-- The arguments of a call. -/
structure Arguments where
  positional : List Value
  named : List (String × Value)
  deriving DecidableEq

instance : Inhabited Arguments := ⟨⟨[], []⟩⟩

namespace Arguments

/-- The arguments of a call without names. -/
def ofList (positional : List Value) : Arguments :=
  { positional, named := [] }

/-- How many arguments there are. -/
def count (arguments : Arguments) : Nat :=
  arguments.positional.length + arguments.named.length

/-- Whether there are none. -/
def isEmpty (arguments : Arguments) : Bool :=
  arguments.count == 0

/-- The positional argument with a number, or null. -/
def nth (arguments : Arguments) (index : Nat) : Value :=
  arguments.positional.getD index .null

/-- The first argument given under a name. -/
def named? (arguments : Arguments) (name : String) : Option Value :=
  (arguments.named.find? fun entry => entry.1 == name).map (·.2)

/-- Checks that a native function got a number of positional arguments that it takes.  Named
arguments are not looked at. -/
def checkCount (arguments : Arguments) (owner : String) (least most : Nat) :
    Except RuntimeError Unit :=
  let given := arguments.positional.length
  if given < least ∨ most < given then .error (.arity owner (.outsideRange least most given))
  else .ok ()

end Arguments

namespace Parameters

/-- No parameters. -/
def empty : Parameters := ⟨.empty⟩

instance : Inhabited Parameters := ⟨empty⟩

/-- Declares a parameter; one that is declared again moves to the end. -/
def declare (p : Parameters) (name : String) (default : ParameterDefault) : Parameters :=
  ⟨p.table.set name default⟩

/-- The table that declares the given parameters in order. -/
def ofList (declarations : List (String × ParameterDefault)) : Parameters :=
  declarations.foldl (fun p (name, default) => p.declare name default) empty

/-- A table of parameters without defaults. -/
def required (names : List String) : Parameters :=
  ofList (names.map fun name => (name, .required))

/-- Takes a parameter out and gives back its default. -/
def remove (p : Parameters) (name : String) : Except RuntimeError ParameterDefault × Parameters :=
  let (outcome, table) := p.table.remove name
  (outcome, ⟨table⟩)

/-- Whether a parameter is declared. -/
def contains (p : Parameters) (name : String) : Bool :=
  p.table.contains name

/-- How many parameters are declared. -/
def count (p : Parameters) : Nat :=
  p.table.count

/-- Whether none is declared. -/
def isEmpty (p : Parameters) : Bool :=
  p.table.isEmpty

/-- The parameters in order of declaration. -/
def entries (p : Parameters) : List (String × ParameterDefault) :=
  p.table.entries

/-- How many parameters have no default. -/
def requiredCount (p : Parameters) : Nat :=
  (p.table.values.filter (· = .required)).length

/-! ## Binding -/

/-- Puts a named argument into the slot of the parameter with its name. -/
def fillNamed (names : List String) (owner : String) (slots : List (Option Value))
    (argument : String × Value) : Except RuntimeError (List (Option Value)) :=
  match names.findIdx? (· == argument.1) with
  | none => .error (.arity owner (.unexpected argument.1))
  | some position =>
    if (slots.getD position none).isSome then .error (.arity owner (.repeated argument.1))
    else .ok (slots.set position (some argument.2))

/-- The value of a parameter: what its slot holds, or its default. -/
def settle (owner : String) (parameter : String × ParameterDefault) (slot : Option Value) :
    Except RuntimeError (String × Value) :=
  match slot, parameter.2 with
  | some value, _ => .ok (parameter.1, value)
  | none, .value value => .ok (parameter.1, value)
  | none, .required => .error (.arity owner (.missing parameter.1))

/-- Matches arguments against the parameters; the result lists every parameter with its value, in
order of declaration. -/
def bind (p : Parameters) (owner : String) (arguments : Arguments) :
    Except RuntimeError (List (String × Value)) := do
  let given := arguments.positional.length
  if p.count < given then throw (.arity owner (.surplus p.count given))
  let slots := arguments.positional.map some ++ List.replicate (p.count - given) none
  let filled ← arguments.named.foldlM (fillNamed p.table.names owner) slots
  (p.entries.zip filled).mapM fun (parameter, slot) => settle owner parameter slot

end Parameters

end ScriptCore
