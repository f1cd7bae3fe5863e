import RenderGateway.Plan.Basic

/-!
# Assets of a plan

Which file each segment and track reads. An item's own url comes first, then
the source it names, then the default of the plan; a source that is named but
unknown leaves the item without an asset.
-/

namespace RenderGateway.Plan

/-- A url with something in it. -/
def present (url : Option String) : Option String := url.filter fun u => !Text.isBlankText u

def source? (p : Plan) (id : String) : Option Source := p.sources.find? fun s => s.id = id

def resolveAsset (p : Plan) (url sourceId : Option String) : Option String :=
  match present url with
  | some u => some u
  | none =>
    match sourceId with
    | some id => (p.source? id).map Source.url
    | none => present p.defaultUrl

def segmentAsset (p : Plan) (s : Segment) : Option String := p.resolveAsset s.assetUrl s.sourceId

def audioAsset (p : Plan) (t : AudioTrack) : Option String := p.resolveAsset t.assetUrl t.sourceId

/-- The source that describes a segment's asset, by its id or else by its url. -/
def segmentSource (p : Plan) (s : Segment) : Option Source :=
  match s.sourceId.bind p.source? with
  | some source => some source
  | none => (p.segmentAsset s).bind fun url => p.sources.find? fun source => source.url = url

/-- The elements of a list without later repetitions. -/
def distinct [DecidableEq α] (as : List α) : List α :=
  as.foldl (fun seen a => if a ∈ seen then seen else seen ++ [a]) []

/-- Every asset once, in the order of first use, the video first. -/
def assetUrls (p : Plan) : List String :=
  distinct (p.timeline.filterMap p.segmentAsset ++ p.audioTracks.filterMap p.audioAsset)

/-- The place of an asset: where the paths send it, else where it was. -/
def pinned (paths : String → Option String) (url : String) : String := (paths url).getD url

/-- The plan with every asset that resolves pinned to its place. -/
def localized (p : Plan) (paths : String → Option String) : Plan :=
  { p with
    timeline := p.timeline.map fun s =>
      match p.segmentAsset s with
      | some url => { s with assetUrl := some (pinned paths url) }
      | none => s
    audioTracks := p.audioTracks.map fun t =>
      match p.audioAsset t with
      | some url => { t with assetUrl := some (pinned paths url) }
      | none => t }

end RenderGateway.Plan
