import RenderGateway.Http.MediaType
import RenderGateway.Http.Message
import RenderGateway.Http.Percent
import RenderGateway.Store.Shelf

/-!
# Stored files over HTTP

The files of a store are read by the path behind its route. A path that leaves
the store names no file. A part of a file may be asked for.
-/

namespace RenderGateway.StaticFile

/-- The components of a path; none if it leads upwards or is not a text. -/
def components? (path : String) : Option (List String) := do
  let decoded ← Percent.decode? path
  let parts := (Text.split '/' decoded).filter fun part => part ≠ "" ∧ part ≠ "."
  if parts.contains ".." then none else some parts

/-- The name that a path gives to a file; the directory itself stands for its index. -/
def nameOf? (path : String) : Option String :=
  (components? path).map fun parts =>
    if parts = [] then "index.html" else String.intercalate "/" parts

/-- The first and the last place of the part that a range names in a file of a
size; there has to be one range, in order and within the file. -/
def range? (size : Nat) (value : String) : Option (Nat × Nat) := do
  let spec ← Text.afterPrefix? "bytes=".toList value.toList
  let (first, last) ← Text.splitOnce? '-' spec
  if size = 0 then none
  else if first = [] then
    let count ← Numeral.natOfDigits? last
    if size < count ∨ count = 0 then none else some (size - count, size - 1)
  else
    let first ← Numeral.natOfDigits? first
    let last ← if last = [] then some (size - 1) else Numeral.natOfDigits? last
    let last := min last (size - 1)
    if last < first then none else some (first, last)

def partialContent : HttpStatus := ⟨206, by decide⟩

def rangeNotSatisfiable : HttpStatus := ⟨416, by decide⟩

/-- A file or the part of it that is asked for. -/
def response (name : String) (content : ByteArray) (range : Option String) : Response :=
  let size := content.size
  let headers := [("content-type", MediaType.ofExtension (FileName.extension? name.toList)),
    ("accept-ranges", "bytes")]
  match range with
  | none => ⟨.ok, headers ++ [("content-length", toString size)], .file content⟩
  | some value =>
    match range? size value with
    | none => ⟨rangeNotSatisfiable, [("content-range", s!"bytes */{size}")], .empty⟩
    | some (first, last) =>
      ⟨partialContent,
        headers ++ [("content-length", toString (last + 1 - first)),
          ("content-range", s!"bytes {first}-{last}/{size}")],
        .file (content.extract first (last + 1))⟩

/-- The response to a request for a path in a store. -/
def serve (shelf : Shelf) (path : String) (headers : Headers) : Response :=
  match (nameOf? path).bind fun name => (shelf.find? name).map fun content => (name, content) with
  | some (name, content) => response name content (headers.text? "range")
  | none => ⟨.notFound, [], .empty⟩

end RenderGateway.StaticFile
