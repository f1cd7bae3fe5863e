import RenderGateway.Json.Basic
import RenderGateway.Queue.Table
import RenderGateway.Store.Basic

/-!
# The files of a store

A shelf is what stands at the place of a store's directory: its files, or a
plain file that leaves no room for them. Files are added and never replaced or
removed. A refused addition changes nothing.
-/

namespace RenderGateway

/-- A file that has been stored. -/
structure StoredFile where
  id : String
  reference : String
  publicUrl : String
  name : String
  size : UInt64
  mimeType : String
  place : String
deriving DecidableEq, Repr

namespace StoredFile

def fields (f : StoredFile) : List (String × Json) :=
  [("fileId", .text f.id), ("filePath", .text f.reference), ("publicUrl", .text f.publicUrl),
   ("filename", .text f.name), ("size", .ofUInt64 f.size), ("mimetype", .text f.mimeType)]

def toJson (f : StoredFile) : Json := .object f.fields

end StoredFile

inductive Shelf
  | obstructed
  | open (files : Table ByteArray)

namespace Shelf

def empty : Shelf := .open []

def files : Shelf → Table ByteArray
  | .obstructed => []
  | .open files => files

def find? (s : Shelf) (name : String) : Option ByteArray := s.files.find? name

def contains (s : Shelf) (name : String) : Bool := (s.find? name).isSome

/-- The files of a shelf whose directory can be made. -/
def reach (s : Shelf) (store : FileStore) : Except StorageError (Table ByteArray) :=
  match s with
  | .obstructed =>
    .error (.misconfigured s!"cannot create {store.directory}: File exists (os error 17)")
  | .open files => .ok files

/-- The name of an upload: a fresh id and the ending of the file's own name. -/
def uploadName (id name : String) : String :=
  match FileName.mediaExtension? name with
  | some ext => s!"{id}.{ext}"
  | none => id

/-- Stores bytes under a fresh id. -/
def save (s : Shelf) (store : FileStore) (id name mimeType : String) (bytes : ByteArray) :
    Except StorageError (StoredFile × Shelf) := do
  let files ← s.reach store
  let storedName := uploadName id name
  let place ← store.pathOf storedName
  return ({ id
            reference := store.reference storedName
            publicUrl := store.publicUrl storedName
            name
            size := .ofNat bytes.size
            mimeType
            place },
    .open (Table.insert storedName bytes files))

/-- The longest name that a directory takes, in bytes. -/
def maxNameSize : Nat := 255

/-- A name that the file system can look up. -/
def isLookable (name : String) : Bool :=
  name.utf8ByteSize ≤ maxNameSize && !name.toList.contains '\x00'

/-- One file moves between directories under a new name, if the system grants
the rename. -/
def rename? (granted : Bool) (source name : String) (sources files : Table ByteArray) :
    Option (Table ByteArray × Table ByteArray) :=
  if granted then
    (sources.find? source).map fun bytes => (sources.erase source, Table.insert name bytes files)
  else none

/-- A copy of a file under a new name, and then the removal of the source. -/
def copyAndRemove? (source name : String) (sources files : Table ByteArray) :
    Option (Table ByteArray × Table ByteArray) :=
  (sources.find? source).map fun bytes =>
    let files := Table.insert name bytes files
    (sources.erase source, files)

/-- Moves a file; a refused rename, as between file systems, is made up for. -/
def move? (granted : Bool) (source name : String) (sources files : Table ByteArray) :
    Option (Table ByteArray × Table ByteArray) :=
  (rename? granted source name sources files).orElse fun _ =>
    copyAndRemove? source name sources files

/-- Takes in a finished file from among the sources, under a name that no other
file has. `granted` tells whether the file system renames between the two places. -/
def takeIn (s : Shelf) (store : FileStore) (granted : Bool) (sources : Table ByteArray)
    (source name mimeType : String) :
    Except StorageError (StoredFile × Shelf × Table ByteArray) := do
  let files ← s.reach store
  let place ← store.pathOf name
  if !isLookable name then throw (.system "File name too long (os error 36)")
  if (files.find? name).isSome then throw (.alreadyExists (store.reference name))
  match move? granted source name sources files with
  | none => throw (.writeFailed s!"{place}: No such file or directory (os error 2)")
  | some (sources, files) =>
    return ({ id := name
              reference := store.reference name
              publicUrl := store.publicUrl name
              name
              size := .ofNat ((files.find? name).elim 0 ByteArray.size)
              mimeType
              place },
      .open files, sources)

end Shelf

end RenderGateway
