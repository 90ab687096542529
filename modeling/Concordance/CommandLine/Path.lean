/-!
# Paths

A path is a text of names with slashes between them, which lead through directories
to a file. An empty name and a single point stay in the directory, two points lead to
the one above. So a path that ends with such a name leads to no file.

`Path.withExtension` gives a file another ending.
-/

namespace Concordance.CommandLine.Path

/-- A name that leads to a directory. -/
def isDirectory (name : String) : Bool := name = "" || name = "." || name = ".."

/-- The part of a name before its last point; all of a name that has no point after its
start. -/
def stem (name : List Char) : List Char :=
  match name.reverse.dropWhile (· ≠ '.') with
  | [] => name
  | [_] => name
  | _ :: before => before.reverse

/-- A path from its end to its start, without the slashes and single points that it ends
with. -/
def dropTrailing : List Char → List Char
  | '/' :: rest => dropTrailing rest
  | '.' :: '/' :: rest => dropTrailing rest
  | chars => chars

/-- The path with another ending of its last name. A path to a directory keeps its own,
and of a name such as `..a` only the two points are left. -/
def withExtension (path ending : String) : String :=
  let reversed := path.toList.reverse
  let trimmed := dropTrailing reversed
  let name := (trimmed.takeWhile (· ≠ '/')).reverse
  let directory := (trimmed.dropWhile (· ≠ '/')).reverse
  if isDirectory (String.ofList name) then path
  else if stem name = ['.'] ∧ trimmed = reversed then String.ofList (directory ++ ['.', '.'])
  else String.ofList (directory ++ stem name) ++ "." ++ ending

end Concordance.CommandLine.Path
