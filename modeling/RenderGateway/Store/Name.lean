import RenderGateway.Text.Basic

/-!
# Names of stored files

A plain name names a file in a directory and nothing outside it. The ending of
an uploaded file is kept where it is short and made of ASCII letters and digits.
-/

namespace RenderGateway.FileName

/-- Whether `..` occurs in a name. -/
def hasDoubleDot : List Char → Bool
  | '.' :: '.' :: _ => true
  | _ :: cs => hasDoubleDot cs
  | [] => false

def isPlainChars (cs : List Char) : Bool :=
  cs ≠ [] && cs ≠ ['.'] && !cs.contains '/' && !cs.contains '\\' && !hasDoubleDot cs

/-- A name that stays in its directory. -/
def isPlain (name : String) : Bool := isPlainChars name.toList

/-- The last component of a path; slashes at its end and components that stay in
place do not count. -/
def lastComponent? (path : List Char) : Option (List Char) :=
  match ((path.splitOn '/').filter fun part => part ≠ [] ∧ part ≠ ['.']).getLast? with
  | some part => if part = ['.', '.'] then none else some part
  | none => none

/-- What follows the last dot of the last component; a dot that opens the
component begins no extension. -/
def extension? (path : List Char) : Option (List Char) := do
  let part ← lastComponent? path
  let (stem, extension) ← Text.splitLast? '.' part
  if stem = [] then none else some extension

/-- The extension in lower case, if it has one to eight ASCII letters and digits. -/
def mediaExtension? (path : String) : Option String :=
  ((extension? path.toList).filter fun ext =>
    ext ≠ [] ∧ ext.length ≤ 8 ∧ ext.all Char.isAlphanum).map fun ext =>
      String.ofList (ext.map Char.toLower)

/-- The path of a name in a directory. -/
def join (directory name : String) : String :=
  if directory = "" || Text.hasSuffix "/" directory then directory ++ name
  else s!"{directory}/{name}"

end RenderGateway.FileName
