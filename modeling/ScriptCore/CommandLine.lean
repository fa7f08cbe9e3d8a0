import ScriptCore.Config.Document
import ScriptCore.Evaluation
import ScriptCore.Tally

/-!
# The command line

The commands run small programs on a fresh machine.  Flags may stand anywhere among the
arguments; of a flag that is repeated the last value counts.

`CommandLine.run` is a function of the arguments, the setting in the environment and a way to read
files.  It answers with an exit code and with what is written to the two streams.
-/

namespace ScriptCore.CommandLine

/-- What a run of the command line leaves. -/
structure Outcome where
  code : Nat
  stdout : String
  stderr : String
  deriving DecidableEq, Repr

/-- What is told about the commands, line by line. -/
def helpLines : List String :=
  ["Flow runtime CLI",
    "",
    "Usage:",
    "  flow tail-sum <n>     Sum 1..n with a self tail-recursive function",
    "  flow countdown <n>    Count down from n by self tail recursion",
    "  flow deep <n>         Sum 1..n with non-tail recursion (bounded by --max-depth)",
    "  flow stats            Run a sample workload and print allocation counters",
    "",
    "Flags:",
    "  --max-depth <n>       Maximum call stack depth (default: 1000, env: FLOW_MAX_DEPTH)",
    "  --config <file>       Load runtime configuration from a JSON file",
    "  --leak-detector       Print allocation counters after the command",
    "  -h, --help            Show this help",
    "",
    "Logging is controlled by FLOW_LOG (e.g. FLOW_LOG=debug)."]

/-- What is told about the commands. -/
def helpText : String :=
  String.join (helpLines.map (· ++ "\n"))

/-! ## Flags -/

/-- The flag that asks for the allocation counts. -/
def tallyFlag : String := "--leak-detector"

/-- The flag that names a configuration file. -/
def configFlag : String := "--config"

/-- The flag that sets the depth. -/
def depthFlag : String := "--max-depth"

/-- Takes a flag and its values out of the arguments; gives the last value and the other
arguments.  There is no answer if a flag has no value behind it. -/
def extractFlag (flag : String) : List String → Option (Option String × List String)
  | [] => some (none, [])
  | [argument] => if argument = flag then none else some (none, [argument])
  | argument :: value :: rest =>
    if argument = flag then
      (extractFlag flag rest).map fun (later, kept) => (later.or (some value), kept)
    else (extractFlag flag (value :: rest)).map fun (found, kept) => (found, argument :: kept)

/-- The values of the flags and the arguments that are left. -/
structure Options where
  configPath : Option String
  maxDepth : Option String
  arguments : List String
  deriving DecidableEq, Repr

/-- Takes both flags with values out of the arguments; fails with the first flag that lacks one. -/
def extractOptions (arguments : List String) : Except String Options :=
  match extractFlag configFlag arguments with
  | none => .error configFlag
  | some (configPath, arguments) =>
    match extractFlag depthFlag arguments with
    | none => .error depthFlag
    | some (maxDepth, arguments) => .ok { configPath, maxDepth, arguments }

/-! ## Settings -/

/-- The configuration of a file. -/
def loadConfig (readFile : String → Except ReadFault String) (path : String) :
    Except ConfigError Config :=
  match readFile path with
  | .ok text => Config.ofDocument text
  | .error fault => .error (.unreadable path fault)

/-- The configuration: that of the file or the default, as overridden by the environment. -/
def baseConfig (options : Options) (setting : Option String)
    (readFile : String → Except ReadFault String) : Except ConfigError Config := do
  let config ←
    match options.configPath with
    | some path => loadConfig readFile path
    | none => .ok .default
  config.overridden setting

/-- The configuration with the depth of the flag, if there is one; that depth is positive. -/
def withDepthFlag (config : Config) (maxDepth : Option String) : Option Config :=
  match maxDepth with
  | none => some config
  | some text => (Config.depth? text).bind fun depth => (Config.withMaxDepth depth).toOption

/-! ## Commands -/

/-- What a command writes, how it ends, and what it allocated. -/
structure Report where
  stdout : String
  error : Option RuntimeError
  tally : Tally

/-- A number of steps that no run on a real machine uses up. -/
def ample : Nat := 0x1000000000000000

/-- The text of an integer. -/
def integerText (n : Int64) : String :=
  toString n.toInt

/-- Runs a program on a fresh machine.  `succeeded` tells what is written about its value, `failed`
what is written before its error is reported. -/
def report (config : Config) (program : List Expr)
    (succeeded : Value → Machine → Except RuntimeError String)
    (failed : RuntimeError → String) : Report :=
  match runProgram ample program (Machine.start config) with
  | none => { stdout := "", error := some (.raised "internal" "out of steps"), tally := .zero }
  | some (.error err, m) =>
    { stdout := failed err, error := some err, tally := .ofMachine m }
  | some (.ok value, m) =>
    match succeeded value m with
    | .error err => { stdout := "", error := some err, tally := .ofMachine m }
    | .ok text => { stdout := text, error := none, tally := .ofMachine m }

/-- Sums the numbers up to `n` by self calls in tail position, and shows the function. -/
def tailSum (config : Config) (n : Int64) : Report :=
  report config [.tailSum "sum", .callName "sum" [.int n]]
    (fun value m => do
      let function ← m.lookup "sum"
      return "sum(" ++ integerText n ++ ") = " ++ m.heap.render value ++ "\n" ++
        m.heap.render function ++ "\n")
    fun _ => ""

/-- Counts down from `n` by self calls in tail position. -/
def countdown (config : Config) (n : Int64) : Report :=
  report config
    [.functionOf "countdown" ["n"]
      (.conditional (.binary .greater (.name "n") (.int 0))
        (.callName "countdown" [.binary .subtract (.name "n") (.int 1)])
        (some (.literal (.string "liftoff")))),
      .callName "countdown" [.int n]]
    (fun value m =>
      return "countdown(" ++ integerText n ++ ") = " ++ m.heap.plainText value ++ "\n")
    fun _ => ""

/-- Sums the numbers up to `n` by calls that nest. -/
def deep (config : Config) (n : Int64) : Report :=
  report config [.nestedSum "deep", .callName "deep" [.int n]]
    (fun value m => return "deep(" ++ integerText n ++ ") = " ++ m.heap.render value ++ "\n")
    fun
      | .depthExceeded .. =>
        "deep(" ++ integerText n ++ s!") exceeded max depth {config.maxDepth}\n"
      | _ => ""

/-- A program that uses functions, closures and containers. -/
def sampleProgram : List Expr :=
  [.tailSum "sum",
    .define "total" (.callName "sum" [.int 1000]),
    .functionOf "make_counter" []
      (.block
        [.define "count" (.int 0),
          .functionOf "next" []
            (.assign "count" (.binary .add (.name "count") (.int 1)))]),
    .define "counter" (.callName "make_counter" []),
    .callName "counter" [],
    .callName "counter" [],
    .define "items" (.list [.int 1, .int 2, .int 3]),
    .callMethod (.name "items") "append" [.name "total"] [],
    .define "counter" (.literal .null)]

/-- Runs the sample program and shows what it allocated. -/
def stats (config : Config) : Report :=
  report config sampleProgram
    (fun _ m => do
      let items ← m.lookup "items"
      return s!"records live:        {m.arena.liveCount}\n" ++
        s!"records allocated:   {m.arena.allocated}\n" ++
        s!"records reclaimed:   {m.arena.reclaimed}\n" ++
        "items:               " ++ m.heap.render items ++ "\n" ++ (Tally.ofMachine m).report)
    fun _ => ""

/-- The integer of 64 bits that a text writes. -/
def operand? (text : String) : Option Int64 :=
  (Decimal.integer? text).bind fun n =>
    if Int64.minValue.toInt ≤ n ∧ n ≤ Int64.maxValue.toInt then some (.ofInt n) else none

/-- How a finished command ends: an error is written and gives the code one. -/
def Report.outcome (r : Report) : Outcome :=
  match r.error with
  | none => { code := 0, stdout := r.stdout, stderr := "" }
  | some err => { code := 1, stdout := r.stdout, stderr := "Error: " ++ err.message ++ "\n" }

/-- An outcome that a command did not get to run for. -/
def refusal (stderr : String) : Outcome :=
  { code := 2, stdout := "", stderr }

/-- Runs a command that takes an integer. -/
def onOperand (command : String) (operand : Option String) (run : Int64 → Report) :
    Outcome × Tally :=
  match operand with
  | none => (refusal ("Usage: flow " ++ command ++ " <n>\n"), .zero)
  | some text =>
    match operand? text with
    | none => (refusal ("Error: " ++ command ++ " expects an integer.\n"), .zero)
    | some n => let r := run n; (r.outcome, r.tally)

/-- Runs a command; gives its outcome and what it allocated. -/
def runCommand (config : Config) (command : String) (operand : Option String) : Outcome × Tally :=
  match command with
  | "-h" | "--help" | "help" => ({ code := 0, stdout := helpText, stderr := "" }, .zero)
  | "tail-sum" => onOperand command operand (tailSum config)
  | "countdown" => onOperand command operand (countdown config)
  | "deep" => onOperand command operand (deep config)
  | "stats" => let r := stats config; (r.outcome, r.tally)
  | other =>
    ({ code := 2, stdout := helpText, stderr := "Error: unknown command '" ++ other ++ "'\n" },
      .zero)

/-! ## The whole command line -/

/-- Runs the command line on the arguments behind the program's name. -/
def run (arguments : List String) (setting : Option String)
    (readFile : String → Except ReadFault String) : Outcome :=
  let tallied := arguments.contains tallyFlag
  match extractOptions (arguments.filter (· ≠ tallyFlag)) with
  | .error flag => refusal ("Usage: flow <command> " ++ flag ++ " <value>\n")
  | .ok options =>
    match baseConfig options setting readFile with
    | .error err => refusal ("Error: " ++ err.message ++ "\n")
    | .ok config =>
      match withDepthFlag config options.maxDepth with
      | none => refusal "Error: --max-depth expects a positive integer.\n"
      | some config =>
        match options.arguments with
        | [] => { code := 0, stdout := helpText, stderr := "" }
        | command :: operands =>
          let (outcome, tally) := runCommand config command operands.head?
          if tallied then { outcome with stdout := outcome.stdout ++ tally.report } else outcome

end ScriptCore.CommandLine
