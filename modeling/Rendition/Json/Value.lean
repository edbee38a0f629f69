/-!
# Rendition.Json.Value

JSON values. A number is a word if it is written as an integer that fits one, and a double
otherwise; a double is kept by its bits, so that zero and negative zero are two values.
-/

namespace Rendition.Json

/-- A number. -/
inductive Number where
  /-- An integer from 0 to the largest word. -/
  | natural (n : UInt64)
  /-- A negative integer, down to the smallest signed word. -/
  | negative (n : Int64)
  /-- Any other number, by the bits of the double. -/
  | real (bits : UInt64)
  deriving DecidableEq, Repr

/-- A value. The members of an object are in the order of the text. -/
inductive Value where
  | null
  | boolean (b : Bool)
  | number (n : Number)
  | text (s : String)
  | array (items : List Value)
  | object (members : List (String × Value))
  deriving Repr, BEq

/-- The members of an object. -/
abbrev Members := List (String × Value)

/-! ### Members by name -/

variable {α : Type}

/-- A list of members in ascending order of names, with one more; it takes the place of an earlier
one of its name. -/
def insertMember (name : String) (value : α) : List (String × α) → List (String × α)
  | [] => [(name, value)]
  | (other, old) :: rest =>
    if name < other then (name, value) :: (other, old) :: rest
    else if name = other then (name, value) :: rest
    else (other, old) :: insertMember name value rest

/-- Members in ascending order of names. Of those that share a name the last one counts. -/
def sortedMembers (members : List (String × α)) : List (String × α) :=
  members.foldl (fun sorted (name, value) => insertMember name value sorted) []

end Rendition.Json
