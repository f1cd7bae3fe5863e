import RenderGateway.Capability

/-!
# Engines and routing

An engine declares the capabilities that it covers. Routing takes the first
engine of a priority list that covers what is required. Exporting the plan
covers everything and renders nothing: it is the last resort wherever it stands
in the list, and also where it does not.
-/

namespace RenderGateway

inductive Engine
  | webcodecs
  | cloudinary
  | serverFfmpeg
  | planExport
deriving DecidableEq, Repr

namespace Engine

def all : List Engine := [webcodecs, cloudinary, serverFfmpeg, planExport]

def name : Engine → String
  | webcodecs => "webcodecs"
  | cloudinary => "cloudinary"
  | serverFfmpeg => "server_ffmpeg"
  | planExport => "plan_export"

def ofName? (s : String) : Option Engine := all.find? fun e => e.name = s

/-- An engine by its name, with blanks around it. -/
def ofText (s : String) : Except String Engine :=
  let word := Text.trim s
  match ofName? word with
  | some e => .ok e
  | none => .error s!"unknown engine '{word}'"

def supports : Engine → Capability → Bool
  | serverFfmpeg, _ | planExport, _ => true
  | webcodecs, c => c ∈ [.trim, .resize, .formatConvert, .segmentReplace, .audioMux]
  | cloudinary, c =>
    c ∈ [.trim, .speedChange, .resize, .formatConvert, .overlay, .textOverlay]

def capabilities (e : Engine) : List Capability := Capability.all.filter e.supports

/-- Whether the gateway runs the engine itself. -/
def hasServerExecutor (e : Engine) : Bool := e = serverFfmpeg || e = planExport

/-- Whether the engine makes a file. -/
def renders (e : Engine) : Bool := e ≠ planExport

def toJson (e : Engine) : Json := .text e.name

def decoder : Json.Decoder Engine := Json.Decoder.name ofName?

end Engine

/-- An engine that was passed over and what it lacks. -/
structure Rejection where
  engine : Engine
  missing : List Capability
deriving DecidableEq, Repr

structure Routing where
  selected : Engine
  fallbackChain : List Rejection
  required : List Capability
deriving DecidableEq, Repr

namespace Engine

def missing (e : Engine) (required : List Capability) : List Capability :=
  required.filter fun c => !e.supports c

/-- The first of the engines that lacks nothing and the ones passed over, given
those passed over before, the nearest first. -/
def selectFrom (required : List Capability) : List Rejection → List Engine → Engine × List Rejection
  | passed, [] => (planExport, passed.reverse)
  | passed, e :: engines =>
    if passed.any fun r => r.engine = e then selectFrom required passed engines
    else match e.missing required with
      | [] => (e, passed.reverse)
      | missing => selectFrom required (⟨e, missing⟩ :: passed) engines

/-- Routes required capabilities, given in the order of declaration. -/
def route (required : List Capability) (engines : List Engine) : Routing :=
  let (selected, fallbackChain) :=
    selectFrom required [] (engines.filter fun e => e ≠ planExport)
  { selected, fallbackChain, required }

end Engine

namespace Plan

def route (p : Plan) (engines : List Engine) : Routing :=
  Engine.route p.requiredCapabilities engines

end Plan

open Json Json.Decoder

namespace Rejection

def toJson (r : Rejection) : Json :=
  .object [("engine", r.engine.toJson), ("missing", ofList Capability.toJson r.missing)]

def decoder : Decoder Rejection :=
  record ["engine", "missing"] fun r => do
    let engine ← r.required "engine" Engine.decoder
    let missing ← r.required "missing" (list Capability.decoder)
    return { engine, missing }

end Rejection

namespace Routing

def toJson (d : Routing) : Json :=
  .object [("selected", d.selected.toJson),
    ("fallbackChain", ofList Rejection.toJson d.fallbackChain),
    ("required", ofList Capability.toJson d.required)]

def decoder : Decoder Routing :=
  record ["selected", "fallbackChain", "required"] fun r => do
    let selected ← r.required "selected" Engine.decoder
    let fallbackChain ← r.required "fallbackChain" (list Rejection.decoder)
    let required ← r.required "required" (list Capability.decoder)
    return { selected, fallbackChain, required }

end Routing

end RenderGateway
