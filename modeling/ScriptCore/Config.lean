import ScriptCore.Decimal.Reading
import ScriptCore.FileTree
import ScriptCore.Text.Blank

/-!
# Configuration

The one setting of a machine is how deep its calls may nest.  It comes from a document, from the
environment or from the command line; zero is refused wherever it comes from.
-/

namespace ScriptCore

/-- The settings of a machine. -/
structure Config where
  maxDepth : Nat
  deriving DecidableEq, Repr

/-- What can be wrong with a configuration. -/
inductive ConfigError
  /-- The file with the document cannot be read. -/
  | unreadable (path : String) (fault : ReadFault)
  /-- The document is not a configuration. -/
  | malformed
  /-- The setting in the environment is not a number. -/
  | environment (setting : String)
  /-- The depth is zero. -/
  | zeroDepth
  deriving DecidableEq, Repr

/-- The wording of an error.  What is wrong with a malformed document is not told. -/
def ConfigError.message : ConfigError → String
  | unreadable path fault => s!"failed to read config {path}: {fault.message}"
  | malformed => "invalid config:"
  | environment setting => s!"invalid FLOW_MAX_DEPTH value '{setting}'"
  | zeroDepth => "max_depth must be at least 1"

namespace Config

/-- The settings when nothing is said. -/
def default : Config :=
  { maxDepth := 1000 }

/-- Refuses a depth of zero. -/
def validated (config : Config) : Except ConfigError Config :=
  if config.maxDepth = 0 then .error .zeroDepth else .ok config

/-- The settings with a given depth. -/
def withMaxDepth (maxDepth : Nat) : Except ConfigError Config :=
  validated { maxDepth }

/-- The number that a text writes as digits behind an optional plus, if it fits into 64 bits. -/
def depth? (text : String) : Option Nat :=
  let digits :=
    match text.toList with
    | '+' :: rest => rest
    | digits => digits
  (Decimal.natural? digits).filter (· < UInt64.size)

/-- The settings as overridden by the environment, where blanks around the number do not count. -/
def overridden (config : Config) (setting : Option String) : Except ConfigError Config :=
  match setting with
  | none => config.validated
  | some text =>
    match depth? (Text.trimBlank text) with
    | some maxDepth => withMaxDepth maxDepth
    | none => .error (.environment text)

end Config

end ScriptCore
