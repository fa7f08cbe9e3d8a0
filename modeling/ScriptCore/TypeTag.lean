/-!
# Type tags

The closed set of types a script value can have.  Diagnostics name a value by its tag, so the
texts are part of the language: they appear in error messages and in the developer's view of
a value.
-/

namespace ScriptCore

/-- The types of script values.  An instance of a struct is tagged as a module. -/
inductive TypeTag
  | integer
  | float
  | string
  | boolean
  | null
  | datetime
  | error
  | list
  | dict
  | module
  | function
  deriving DecidableEq, Repr

namespace TypeTag

/-- The name of a type in diagnostics. -/
def name : TypeTag → String
  | integer => "integer"
  | float => "float"
  | string => "string"
  | boolean => "boolean"
  | null => "null"
  | datetime => "datetime"
  | error => "error"
  | list => "list"
  | dict => "dict"
  | module => "module"
  | function => "function"

end TypeTag

end ScriptCore
