import RenderGateway.Plan.Basic

/-!
# Names of rendered files

A rendered file is named by the requested name, as far as it can be used, and
the id of the job, which keeps files of jobs with the same name apart.
-/

namespace RenderGateway.OutputName

def isKept (c : Char) : Bool := c.isAlphanum || c = '.' || c = '_' || c = '-'

/-- How many characters of a requested name are kept. -/
def maxLength : Nat := 100

/-- What a requested name contributes: neither blanks around it nor the extension,
only characters that are safe in names, and no dot at the start. -/
def stem (requested : String) (extension : List Char) : List Char :=
  let name := Text.trimChars requested.toList
  let name := (Text.beforeSuffix? ('.' :: extension) name).getD name
  ((name.filter isKept).take maxLength).dropWhile (· = '.')

/-- The name of the file that a job renders. -/
def ofJob (requested : Option String) (jobId : String) (container : Container) : String :=
  let extension := container.extension
  match (requested.map fun name => stem name extension.toList).filter (· ≠ []) with
  | some stem => s!"{String.ofList stem}-{jobId}.{extension}"
  | none => s!"{jobId}.{extension}"

end RenderGateway.OutputName
