import RenderGateway.Fault
import RenderGateway.Store.Name

/-!
# File stores

A store is a directory whose files are served under a route. A reference names
a file of the store in one of several forms: with the route, with the public
address before it, or bare.
-/

namespace RenderGateway

inductive StorageError
  | misconfigured (reason : String)
  | fileNotFound (key : String)
  | invalidName (name : String)
  | writeFailed (reason : String)
  | alreadyExists (reference : String)
  | system (reason : String)
  | unwritableRecord (reason : String)
deriving DecidableEq, Repr

namespace StorageError

def message : StorageError → String
  | misconfigured reason => s!"Failed to configure storage: {reason}"
  | fileNotFound key => s!"File not found: {key}"
  | invalidName name => s!"Invalid file reference: {name}"
  | writeFailed reason => s!"Write failed: {reason}"
  | alreadyExists reference => s!"File already exists: {reference}"
  | system reason => s!"IO error: {reason}"
  | unwritableRecord reason => s!"JSON error: {reason}"

/-- A bad reference is a mistake of the caller; all else is the gateway's. -/
def code : StorageError → FaultCode
  | fileNotFound _ | invalidName _ => .input
  | _ => .storage

def fault (e : StorageError) : Fault := .ofMessage e.code e.message

instance : Reported StorageError := ⟨message, fault⟩

end StorageError

/-- A directory served under a route, such as `uploads`, of a public address. -/
structure FileStore where
  directory : String
  route : String
  publicAddress : String
deriving DecidableEq, Repr

namespace FileStore

def reference (s : FileStore) (name : String) : String := s!"/{s.route}/{name}"

def publicUrl (s : FileStore) (name : String) : String := s.publicAddress ++ s.reference name

/-- The place on disk of a name. -/
def place (s : FileStore) (name : String) : String := FileName.join s.directory name

def pathOf (s : FileStore) (name : String) : Except StorageError String :=
  if FileName.isPlain name then .ok (s.place name) else .error (.invalidName name)

/-- A reference without the public address and without the route. -/
def withoutRoute (s : FileStore) (reference : List Char) : List Char :=
  let reference :=
    if s.publicAddress = "" then reference
    else (Text.afterPrefix? s.publicAddress.toList reference).getD reference
  (Text.afterPrefix? (s.route.toList ++ ['/']) (reference.dropWhile (· = '/'))).getD reference

/-- The name that a reference gives to a file of the store. -/
def nameOf? (s : FileStore) (reference : String) : Option String :=
  let name := (s.withoutRoute (Text.trimChars reference.toList)).takeWhile fun c =>
    c ≠ '?' ∧ c ≠ '#'
  if FileName.isPlainChars name then some (String.ofList name) else none

/-- The place on disk of a reference into the store. -/
def resolve? (s : FileStore) (reference : String) : Option String :=
  (s.nameOf? reference).map s.place

end FileStore

end RenderGateway
