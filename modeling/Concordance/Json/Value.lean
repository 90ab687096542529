import Concordance.Json.Number

/-!
# JSON values and their text

A value is written over several lines: each element of an array and each member of
an object on a line of its own, two blanks further in than the line it belongs to.
An array or object without content stays on one line.
-/

namespace Concordance.Json

inductive Value where
  | natural (value : Nat)
  | number (value : Binary64)
  | bool (value : Bool)
  | array (elements : List Value)
  | object (members : List (String × Value))

namespace Value

/-- A new line, so many levels in. -/
def newLine (level : Nat) : String := "\n" ++ String.ofList (List.replicate (2 * level) ' ')

/-- Content between brackets, each item on a line of its own. -/
def bracketed (left right : String) (level : Nat) (items : List String) : String :=
  if items.isEmpty then left ++ right
  else
    left ++ newLine (level + 1)
      ++ ("," ++ newLine (level + 1)).intercalate items
      ++ newLine level ++ right

mutual

/-- The text of a value that starts on a line `level` levels in. Keys are written as they
are. -/
def renderAt (level : Nat) : Value → String
  | natural value => naturalText value
  | number value => numberText value
  | bool value => if value then "true" else "false"
  | array elements => bracketed "[" "]" level (elementTexts (level + 1) elements)
  | object members => bracketed "\x7b" "\x7d" level (memberTexts (level + 1) members)

def elementTexts (level : Nat) : List Value → List String
  | [] => []
  | element :: elements => renderAt level element :: elementTexts level elements

def memberTexts (level : Nat) : List (String × Value) → List String
  | [] => []
  | (key, value) :: members =>
    ("\"" ++ key ++ "\": " ++ renderAt level value) :: memberTexts level members

end

/-- The text of a value. -/
def render (value : Value) : String := value.renderAt 0

end Value

end Concordance.Json
