import RenderGateway.Settings.Environment
import RenderGateway.Store.Shelf

/-!
# Settings of the stores

Where uploads, rendered files and the log of failures are kept, and the public
address that they are reached at; without one their addresses are relative.
-/

namespace RenderGateway

structure StorageSettings where
  uploads : String
  outputs : String
  failureLog : String
  publicAddress : String
deriving DecidableEq, Repr

namespace StorageSettings

def default : StorageSettings :=
  ⟨"./data/uploads", "./data/outputs", "./data/errors.jsonl", ""⟩

def ofEnvironment (e : Environment) : StorageSettings where
  uploads := e.text "UPLOADS_DIR" default.uploads
  outputs := e.text "OUTPUTS_DIR" default.outputs
  failureLog := e.text "ERROR_LOG_PATH" default.failureLog
  publicAddress := Text.dropEndSlashes (e.text "PUBLIC_BASE_URL" default.publicAddress)

def uploadStore (s : StorageSettings) : FileStore := ⟨s.uploads, "uploads", s.publicAddress⟩

def outputStore (s : StorageSettings) : FileStore := ⟨s.outputs, "outputs", s.publicAddress⟩

/-- Both stores with their files, in the order in which references are looked up. -/
def shelves (s : StorageSettings) (uploads outputs : Shelf) : List (FileStore × Shelf) :=
  [(s.uploadStore, uploads), (s.outputStore, outputs)]

end StorageSettings

end RenderGateway
