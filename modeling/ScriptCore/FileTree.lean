/-!
# Files and paths

The text files that a run can read, and the reasons why a path may lead to none.

A path is a row of names between slashes.  It is walked from the root if it starts with a slash and
from the working directory otherwise: each name leads from a directory to one of its entries, the
empty name and `.` stay where they are, and `..` leads back.  Every step, also one that stays,
starts from a directory.  `FileTree.read` gives the text at the end of the path or the first thing
that went wrong on the way.
-/

namespace ScriptCore

/-- Why a text file cannot be read. -/
inductive ReadFault
  | notFound
  | denied
  /-- A file stands where the path goes on. -/
  | notDirectory
  /-- The path leads to a directory. -/
  | isDirectory
  /-- A name, or the whole path, is longer than can be. -/
  | nameTooLong
  /-- The file does not hold UTF-8. -/
  | notText
  /-- Any other failure of the system, by its number. -/
  | system (code : Nat)
  deriving DecidableEq, Repr

namespace ReadFault

/-- The fault with a number of the system. -/
def ofCode : Nat → ReadFault
  | 2 => notFound
  | 13 => denied
  | 20 => notDirectory
  | 21 => isDirectory
  | 36 => nameTooLong
  | code => system code

/-- The wording of a fault, with the number of the system. -/
def message : ReadFault → String
  | notFound => "No such file or directory (os error 2)"
  | denied => "Permission denied (os error 13)"
  | notDirectory => "Not a directory (os error 20)"
  | isDirectory => "Is a directory (os error 21)"
  | nameTooLong => "File name too long (os error 36)"
  | notText => "stream did not contain valid UTF-8"
  | system code => s!"Input/output error (os error {code})"

end ReadFault

/-- The text files below the root and the directory in which relative paths start.  Both are given
by the names on the way from the root; a directory is there when a file is below it. -/
structure FileTree where
  files : List (List String × String)
  working : List String

namespace FileTree

/-- The greatest number of bytes in a name. -/
def longestName : Nat := 255

/-- The greatest number of bytes in a path. -/
def longestPath : Nat := 4095

/-- The text of the file at a place. -/
def file? (t : FileTree) (place : List String) : Option String :=
  (t.files.find? fun file => file.1 == place).map (·.2)

/-- Whether something stands at a place: a file, or a directory on the way to one or to the working
directory. -/
def holds (t : FileTree) (place : List String) : Bool :=
  place.isPrefixOf t.working || t.files.any fun file => place.isPrefixOf file.1

/-- Follows one name of a path. -/
def enter (t : FileTree) (place : List String) (name : String) : Except ReadFault (List String) :=
  if (t.file? place).isSome then .error .notDirectory
  else if name = "" ∨ name = "." then .ok place
  else if name = ".." then .ok place.dropLast
  else if longestName < name.utf8ByteSize then .error .nameTooLong
  else if t.holds (place ++ [name]) then .ok (place ++ [name])
  else .error .notFound

/-- The place to which a path leads. -/
def resolve (t : FileTree) (path : String) : Except ReadFault (List String) :=
  if path = "" then .error .notFound
  else if longestPath < path.utf8ByteSize then .error .nameTooLong
  else
    let start := if path.toList.head? = some '/' then [] else t.working
    (path.splitOn "/").foldlM t.enter start

/-- The text of the file to which a path leads. -/
def read (t : FileTree) (path : String) : Except ReadFault String := do
  let place ← t.resolve path
  match t.file? place with
  | some text => .ok text
  | none => .error .isDirectory

end FileTree

end ScriptCore
