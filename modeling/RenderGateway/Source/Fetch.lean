import RenderGateway.Render.Failure
import RenderGateway.Source.Url
import RenderGateway.Store.Shelf

/-!
# Sources on disk

Before a plan is rendered every source is a file on disk. A reference into a
store is the stored file; an address of the web is downloaded. One call is one
attempt.
-/

namespace RenderGateway

/-- How a download ended. -/
inductive Transfer
  | answered (status : HttpStatus) (body : ByteArray)
  | broken (reason : String) (transient : Bool)

structure LocalSource where
  path : String
  content : ByteArray

namespace LocalSource

/-- The name of the file that a download fills; the number keeps such names apart. -/
def downloadName (index : Nat) (url : WebUrl) : String :=
  let extension := (FileName.mediaExtension? url.path).getD "bin"
  s!"source-{index}.{extension}"

/-- The file of the first store that the reference points into. -/
def stored? (stores : List (FileStore × Shelf)) (reference : String) :
    Option (Except RenderFailure LocalSource) :=
  stores.findSome? fun (store, shelf) =>
    (store.nameOf? reference).map fun name =>
      match shelf.find? name with
      | some content => .ok ⟨store.place name, content⟩
      | none => .error (.sourceMissing reference)

def downloaded (directory : String) (index : Nat) (reference : String) (url : WebUrl) :
    Transfer → Except RenderFailure LocalSource
  | .answered status body =>
    if status.isSuccess then .ok ⟨FileName.join directory (downloadName index url), body⟩
    else .error (.ofStatus reference status)
  | .broken reason transient => .error (.download reference reason none transient)

/-- One attempt to have a source on disk. `transfer` downloads an address. -/
def fetch (stores : List (FileStore × Shelf)) (transfer : WebUrl → Transfer) (directory : String)
    (index : Nat) (reference : String) : Except RenderFailure LocalSource :=
  match stored? stores reference with
  | some result => result
  | none =>
    match WebUrl.ofText? reference with
    | some url => downloaded directory index reference url (transfer url)
    | none => .error (.unsupportedSource reference)

end LocalSource

end RenderGateway
