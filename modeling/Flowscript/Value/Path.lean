import Flowscript.Value.Basic

/-!
# Paths

A path is kept without empty and `.` parts. Two slashes in front are not the same as one, more than
two are.
-/

namespace Flowscript

def pathRoot (cs : List Char) : String :=
  match (cs.takeWhile (· == '/')).length with
  | 0 => ""
  | 2 => "//"
  | _ => "/"

def pathParts (text : String) : List String :=
  (text.splitOn "/").filter fun part => part != "" && part != "."

def normalPath (text : String) : String :=
  let path := pathRoot text.toList ++ "/".intercalate (pathParts text)
  if path.isEmpty then "." else path

def Value.ofPath (text : String) : Value := .path (normalPath text)

/-- The extension of the last part of a path, with its dot; a dot in front of a name or at its end
begins none. -/
def pathSuffix (text : String) : String :=
  let name := ((pathParts text).getLast?.getD "").toList
  let extension := (name.reverse.takeWhile (· != '.')).reverse
  if extension.length + 1 < name.length && !extension.isEmpty then
    String.ofList ('.' :: extension)
  else ""

end Flowscript
