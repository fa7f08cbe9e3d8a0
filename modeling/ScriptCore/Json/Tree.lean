import ScriptCore.Heap

/-!
# JSON trees

A JSON document as a tree.  Whole numbers and other numbers are kept apart.  The members of an
object are sorted by their keys, each key occurring once.
-/

namespace ScriptCore

/-- JSON documents. -/
inductive JsonTree
  | null
  | boolean (truth : Bool)
  | integer (number : Int)
  | float (number : Float)
  | string (text : String)
  | array (items : List JsonTree)
  | object (members : List (String × JsonTree))

namespace JsonTree

instance : Inhabited JsonTree := ⟨null⟩

/-- Puts a member where its key belongs; a member with the same key is replaced. -/
def insertMember (key : String) (tree : JsonTree) :
    List (String × JsonTree) → List (String × JsonTree)
  | [] => [(key, tree)]
  | (first, other) :: rest =>
    if key < first then (key, tree) :: (first, other) :: rest
    else if key = first then (key, tree) :: rest
    else (first, other) :: insertMember key tree rest

/-- The object with the given members, the last of equal keys winning. -/
def ofMembers (members : List (String × JsonTree)) : JsonTree :=
  object (members.foldl (fun sorted (key, tree) => insertMember key tree sorted) [])

end JsonTree

end ScriptCore
