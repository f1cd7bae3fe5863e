import RenderGateway.Store.Shelf

/-!
# The calls of a store, step by step

A disk has files at paths. A call of a store looks at the disk and changes it one step after the
other; what is done before a step that fails stays done. The files of the store are those whose
path begins with its directory, all others lie outside.
-/

namespace RenderGateway

structure Disk where
  /-- Whether a plain file stands where the store's directory should be. -/
  obstructed : Bool
  files : Table ByteArray

abbrev OnDisk := ExceptT StorageError (StateM Disk)

namespace OnDisk

def write (path : String) (bytes : ByteArray) : OnDisk Unit :=
  modify fun d => { d with files := Table.insert path bytes d.files }

def remove (path : String) : OnDisk Unit :=
  modify fun d => { d with files := d.files.erase path }

def missing : StorageError := .system "No such file or directory (os error 2)"

/-- Moves a file in one step, if it is there and the system grants it. -/
def rename (granted : Bool) (source path : String) : OnDisk Bool := do
  match (← get).files.find? source with
  | some bytes =>
    if granted then
      remove source
      write path bytes
    return granted
  | none => return false

def copy (source path : String) : OnDisk Unit := do
  match (← get).files.find? source with
  | some bytes => write path bytes
  | none => throw (.writeFailed s!"{path}: No such file or directory (os error 2)")

/-- Moves a file; a refused rename, as between file systems, is made up for. -/
def move (granted : Bool) (source path : String) : OnDisk Unit := do
  if !(← rename granted source path) then
    copy source path
    remove source

def sizeAt (path : String) : OnDisk UInt64 := do
  match (← get).files.find? path with
  | some bytes => return .ofNat bytes.size
  | none => throw missing

end OnDisk

/-- A call of a store. -/
inductive StoreCall
  /-- Bytes for a file of some name are stored under an id. -/
  | save (id name mimeType : String) (bytes : ByteArray)
  /-- A file is moved into the store under a name; the system may or may not grant
  to rename it. -/
  | takeIn (granted : Bool) (source name mimeType : String)

namespace FileStore

open OnDisk

variable (store : FileStore)

/-- Makes the store's directory. -/
def ensureDirectory : OnDisk Unit := do
  if (← get).obstructed then
    throw (.misconfigured s!"cannot create {store.directory}: File exists (os error 17)")

/-- Whether a file stands at the place of a name. -/
def holds (name : String) : OnDisk Bool := do
  if !Shelf.isLookable name then throw (.system "File name too long (os error 36)")
  return ((← get).files.find? (store.place name)).isSome

def saveBytes (id name mimeType : String) (bytes : ByteArray) : OnDisk StoredFile := do
  store.ensureDirectory
  let storedName := Shelf.uploadName id name
  let place ← ofExcept (store.pathOf storedName)
  write place bytes
  return { id
           reference := store.reference storedName
           publicUrl := store.publicUrl storedName
           name
           size := .ofNat bytes.size
           mimeType
           place }

def importFile (granted : Bool) (source name mimeType : String) : OnDisk StoredFile := do
  store.ensureDirectory
  let place ← ofExcept (store.pathOf name)
  if ← store.holds name then throw (.alreadyExists (store.reference name))
  move granted source place
  let size ← sizeAt place
  return { id := name
           reference := store.reference name
           publicUrl := store.publicUrl name
           name
           size
           mimeType
           place }

def perform : StoreCall → OnDisk StoredFile
  | .save id name mimeType bytes => store.saveBytes id name mimeType bytes
  | .takeIn granted source name mimeType => store.importFile granted source name mimeType

/-- The name that a path has in the store's directory. -/
def nameAt? (path : String) : Option String :=
  (Text.afterPrefix? (store.place "").toList path.toList).map String.ofList

/-- The files of the store's directory, by their names there. -/
def within (files : Table ByteArray) : Table ByteArray :=
  files.filterMap fun (path, bytes) => (store.nameAt? path).map (·, bytes)

/-- The files outside of the store's directory. -/
def beyond (files : Table ByteArray) : Table ByteArray :=
  files.filter fun (path, _) => (store.nameAt? path).isNone

end FileStore

/-- What stands at the place of a store's directory. -/
def Disk.shelf (d : Disk) (store : FileStore) : Shelf :=
  if d.obstructed then .obstructed else .open (store.within d.files)

end RenderGateway
