import ScriptCore.Parameters

/-!
# Methods of containers

The methods that lists and dicts come with, their names and their declared parameters.  What they
do is told in `ScriptCore.Method.List` and `ScriptCore.Method.Dict`.
-/

namespace ScriptCore

/-- The methods of a list. -/
inductive ListMethod
  | append
  | pop
  | insert
  | removeAt
  | get
  | set
  | length
  | contains
  | indexOf
  | clear
  deriving DecidableEq, Repr

namespace ListMethod

/-- All methods of a list. -/
def all : List ListMethod :=
  [append, pop, insert, removeAt, get, set, length, contains, indexOf, clear]

/-- The name by which a method is looked up. -/
def name : ListMethod → String
  | append => "append"
  | pop => "pop"
  | insert => "insert"
  | removeAt => "remove_at"
  | get => "get"
  | set => "set"
  | length => "length"
  | contains => "contains"
  | indexOf => "index_of"
  | clear => "clear"

/-- The names of the parameters; all are required. -/
def parameterNames : ListMethod → List String
  | append => ["value"]
  | pop => []
  | insert => ["index", "value"]
  | removeAt => ["index"]
  | get => ["index"]
  | set => ["index", "value"]
  | length => []
  | contains => ["value"]
  | indexOf => ["value"]
  | clear => []

/-- The name of the method as a function. -/
def qualifiedName (method : ListMethod) : String :=
  "list." ++ method.name

/-- The method with a name. -/
def ofName? (name : String) : Option ListMethod :=
  all.find? fun method => method.name == name

/-- The declared parameters. -/
def parameters (method : ListMethod) : Parameters :=
  .required method.parameterNames

end ListMethod

/-- The methods of a dict. -/
inductive DictMethod
  | get
  | set
  | remove
  | has
  | keys
  | values
  | items
  | length
  | clear
  deriving DecidableEq, Repr

namespace DictMethod

/-- All methods of a dict. -/
def all : List DictMethod :=
  [get, set, remove, has, keys, values, items, length, clear]

/-- The name by which a method is looked up. -/
def name : DictMethod → String
  | get => "get"
  | set => "set"
  | remove => "remove"
  | has => "has"
  | keys => "keys"
  | values => "values"
  | items => "items"
  | length => "length"
  | clear => "clear"

/-- The names of the required parameters. -/
def requiredNames : DictMethod → List String
  | get => ["key"]
  | set => ["key", "value"]
  | remove => ["key"]
  | has => ["key"]
  | keys => []
  | values => []
  | items => []
  | length => []
  | clear => []

/-- The names of the parameters that default to null. -/
def optionalNames : DictMethod → List String
  | get => ["default"]
  | _ => []

/-- The name of the method as a function. -/
def qualifiedName (method : DictMethod) : String :=
  "dict." ++ method.name

/-- The method with a name. -/
def ofName? (name : String) : Option DictMethod :=
  all.find? fun method => method.name == name

/-- The declared parameters. -/
def parameters (method : DictMethod) : Parameters :=
  .ofList <| (method.requiredNames.map fun name => (name, .required)) ++
    method.optionalNames.map fun name => (name, .value .null)

end DictMethod

end ScriptCore
