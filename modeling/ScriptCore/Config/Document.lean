import ScriptCore.Config

/-!
# Configuration documents

A configuration is a JSON document: an object with at most the one member `max_depth`, or an array
of at most that number.  What is left out keeps its default.  The number is a row of digits
without a sign, a point or an exponent and fits into 64 bits; the name of the member may be
written with escapes.
-/

namespace ScriptCore.Config

/-- Drops the white space of JSON in front of a text. -/
def skipSpace (text : List Char) : List Char :=
  text.dropWhile fun c => c == ' ' || c == '\t' || c == '\n' || c == '\r'

/-- The value of a hexadecimal digit. -/
def hexDigit? (c : Char) : Option Nat :=
  if '0' ≤ c ∧ c ≤ '9' then some (c.toNat - '0'.toNat)
  else if 'a' ≤ c ∧ c ≤ 'f' then some (c.toNat - 'a'.toNat + 10)
  else if 'A' ≤ c ∧ c ≤ 'F' then some (c.toNat - 'A'.toNat + 10)
  else none

/-- The character that four hexadecimal digits stand for; surrogates stand for none. -/
def hexChar? (digits : List Char) : Option Char := do
  let values ← digits.mapM hexDigit?
  let code := values.foldl (fun code digit => code * 16 + digit) 0
  if code.isValidChar then some (Char.ofNat code) else none

/-- The character that a letter behind a backslash stands for. -/
def escape? : Char → Option Char
  | '"' => some '"'
  | '\\' => some '\\'
  | '/' => some '/'
  | 'b' => some '\x08'
  | 'f' => some '\x0c'
  | 'n' => some '\n'
  | 'r' => some '\r'
  | 't' => some '\t'
  | _ => none

/-- Reads a string behind its opening quote; gives its characters and what follows it. -/
def readString? : List Char → Option (List Char × List Char)
  | [] => none
  | '"' :: rest => some ([], rest)
  | '\\' :: 'u' :: a :: b :: c :: d :: rest => do
    let decoded ← hexChar? [a, b, c, d]
    let (text, rest) ← readString? rest
    return (decoded :: text, rest)
  | '\\' :: c :: rest => do
    let decoded ← escape? c
    let (text, rest) ← readString? rest
    return (decoded :: text, rest)
  | c :: rest => do
    if c.toNat < 0x20 then none
    let (text, rest) ← readString? rest
    return (c :: text, rest)

/-- Reads a number; gives it and what follows it.  Zero is the only number that starts with it. -/
def readDepth? (text : List Char) : Option (Nat × List Char) := do
  let digits := text.takeWhile Decimal.isDigit
  let value ← Decimal.natural? digits
  if digits.head? = some '0' ∧ 1 < digits.length then none
  if UInt64.size ≤ value then none
  return (value, text.dropWhile Decimal.isDigit)

/-- Reads an object behind its opening brace. -/
def readObject? (text : List Char) : Option (Config × List Char) := do
  match skipSpace text with
  | '\x7d' :: rest => return (default, rest)
  | '"' :: rest =>
    let (name, rest) ← readString? rest
    if String.ofList name ≠ "max_depth" then none
    let ':' :: rest := skipSpace rest | none
    let (maxDepth, rest) ← readDepth? (skipSpace rest)
    let '\x7d' :: rest := skipSpace rest | none
    return ({ maxDepth }, rest)
  | _ => none

/-- Reads an array behind its opening bracket. -/
def readArray? (text : List Char) : Option (Config × List Char) := do
  match skipSpace text with
  | ']' :: rest => return (default, rest)
  | text =>
    let (maxDepth, rest) ← readDepth? text
    let ']' :: rest := skipSpace rest | none
    return ({ maxDepth }, rest)

/-- Reads a document. -/
def readDocument? (text : List Char) : Option Config := do
  let (config, rest) ←
    match skipSpace text with
    | '\x7b' :: rest => readObject? rest
    | '[' :: rest => readArray? rest
    | _ => none
  if (skipSpace rest).isEmpty then some config else none

/-- The configuration that a document describes. -/
def ofDocument (text : String) : Except ConfigError Config :=
  match readDocument? text.toList with
  | some config => config.validated
  | none => .error .malformed

end ScriptCore.Config
