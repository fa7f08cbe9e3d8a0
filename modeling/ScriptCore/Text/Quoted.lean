import ScriptCore.Text.Hidden

/-!
# Quoted text

A text between double quotes in which every character can be told: quotes and backslashes are
written behind a backslash, the common control characters as letters behind one, and any other
hidden character by its code point.
-/

namespace ScriptCore.Text

/-- A character as it is written between quotes. -/
def quotedChar (c : Char) : String :=
  match c with
  | '"' => "\\\""
  | '\\' => "\\\\"
  | '\n' => "\\n"
  | '\r' => "\\r"
  | '\t' => "\\t"
  | '\x00' => "\\0"
  | _ =>
    if isHidden c then "\\u\x7b" ++ String.ofList (Nat.toDigits 16 c.toNat) ++ "\x7d"
    else c.toString

/-- A text between quotes. -/
def quoted (text : String) : String :=
  "\"" ++ String.join (text.toList.map quotedChar) ++ "\""

end ScriptCore.Text
