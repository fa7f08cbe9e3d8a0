import ScriptCore.CommandLine

/-!
# The program

Reads the arguments, the environment and the configuration file, and writes what the command line
answers.
-/

namespace ScriptCore

/-- The file that the arguments name, if they name one. -/
def configPath? (arguments : List String) : Option String :=
  match CommandLine.extractOptions (arguments.filter (· ≠ CommandLine.tallyFlag)) with
  | .ok options => options.configPath
  | .error _ => none

/-- The fault of a failed reading.  The system counts its faults from one upwards or, in 32 bits,
from minus one downwards. -/
def faultOf : IO.Error → ReadFault
  | .userError _ => .notText
  | err =>
    let code : UInt32 :=
      match err with
      | .noFileOrDirectory _ code _ | .permissionDenied _ code _ | .inappropriateType _ code _
      | .invalidArgument _ code _ | .otherError code _ => code
      | _ => 5
    .ofCode (min code.toNat (-code).toNat)

/-- Reads a text file. -/
def readTextFile (path : String) : IO (Except ReadFault String) := do
  try
    return .ok (← IO.FS.readFile path)
  catch err => return .error (faultOf err)

end ScriptCore

open ScriptCore in
/-- Runs the command line. -/
def main (arguments : List String) : IO UInt32 := do
  let setting ← IO.getEnv "FLOW_MAX_DEPTH"
  let content ←
    match configPath? arguments with
    | some path => readTextFile path
    | none => pure (.error .notFound)
  let outcome := CommandLine.run arguments setting fun _ => content
  IO.print outcome.stdout
  IO.eprint outcome.stderr
  return outcome.code.toUInt32
