import RenderGateway.Proofs.Command.Arguments
import RenderGateway.Proofs.Graph.Mirrors
import RenderGateway.Proofs.Graph.Wiring

/-!
# Commands of localized plans

If different assets have different places, the graph of a localized plan is the
graph of the plan over other inputs: what distinguishes inputs is whether they
are equal, and the place of an asset stands for the asset. Hence the command
differs only in the files that it opens.
-/

namespace RenderGateway

namespace Graph

variable {p : Plan} {paths : String → Option String}

/-- A localized plan mirrors the plan: the place of an asset stands for the asset. -/
theorem mirrors_localized (placeable : p.Placeable paths) :
    p.Mirrors (Plan.pinned paths) (p.localSegment paths) (p.localTrack paths)
      (p.localized paths) where
  format := rfl
  texts := rfl
  timeline := Plan.timeline_localized
  tracks := Plan.audioTracks_localized
  segment_eq s := by rw [Plan.localSegment_eq]
  track_eq := Plan.localTrack_eq
  segmentAsset s hs := Plan.segmentAsset_localized placeable hs
  audioAsset t ht := Plan.audioAsset_localized placeable ht

/-- A localized plan has the graph of the plan over the places of its assets, or the same fault. -/
theorem ofPlan_localized (placeable : p.Placeable paths)
    (hf : Separates (Plan.pinned paths) p.assetUrls) :
    ofPlan (p.localized paths) = (ofPlan p).map (redirect (Plan.pinned paths)) :=
  ofPlan_mirrors (mirrors_localized placeable) hf

end Graph

namespace Arguments

/-- The arguments with other files: each value of `-i` is moved and all else is kept. -/
def redirect (f : String → String) : List String → List String
  | key :: value :: rest =>
    if key ∈ switches then key :: redirect f (value :: rest)
    else key :: (if key = "-i" then f value else value) :: redirect f rest
  | args => args

variable {f : String → String}

theorem redirect_switch {key : String} (h : key ∈ switches) (rest : List String) :
    redirect f (key :: rest) = key :: redirect f rest := by
  cases rest with
  | nil => rfl
  | cons value rest => rw [redirect, if_pos h]

theorem redirect_option {key : String} (h : key ∉ switches) (value : String)
    (rest : List String) :
    redirect f (key :: value :: rest) =
      key :: (if key = "-i" then f value else value) :: redirect f rest := by
  rw [redirect, if_neg h]

theorem redirect_flatten_append (pairs : List (String × String))
    (h : ∀ o ∈ pairs, o.1 ∉ switches) (rest : List String) :
    redirect f (flatten pairs ++ rest) =
      flatten (pairs.map fun o => (o.1, if o.1 = "-i" then f o.2 else o.2)) ++
        redirect f rest := by
  induction pairs with
  | nil => rfl
  | cons o pairs ih =>
    obtain ⟨ho, hpairs⟩ := List.forall_mem_cons.1 h
    change redirect f (o.1 :: o.2 :: (flatten pairs ++ rest)) = _
    rw [redirect_option ho, ih hpairs]
    rfl

theorem renderOptions_redirect (g : Graph) (format : OutputFormat) (quality : Quality) :
    renderOptions (g.redirect f) (encodingOptions format quality) =
      (renderOptions g (encodingOptions format quality)).map fun o =>
        (o.1, if o.1 = "-i" then f o.2 else o.2) := by
  have hencoding : (encodingOptions format quality).map
      (fun o => (o.1, if o.1 = "-i" then f o.2 else o.2)) = encodingOptions format quality := by
    refine (List.map_congr_left fun o ho => ?_).trans (List.map_id _)
    have hkey : o.1 ≠ "-i" := fun heq => by
      have hmem := encodingOptions_keys format quality (List.mem_map_of_mem ho)
      rw [heq] at hmem
      exact absurd hmem (by decide)
    rw [if_neg hkey, id_eq]
  simp only [renderOptions, List.map_append, hencoding, List.map_map, Graph.redirect,
    Function.comp_def, if_true]
  rfl

/-- The command of a graph over other files is the command of the graph, redirected. -/
theorem redirect_invocation (g : Graph) (format : OutputFormat) (quality : Quality)
    (output : String) :
    redirect f (g.invocation (.ofFormat format quality) output).args =
      ((g.redirect f).invocation (.ofFormat format quality) output).args := by
  rw [args_invocation, args_invocation, renderOptions_redirect]
  simp only [List.cons_append, List.nil_append]
  rw [redirect_switch (by decide), redirect_switch (by decide), redirect_option (by decide),
    redirect_option (by decide), redirect_switch (by decide),
    redirect_flatten_append _ (renderOptions_keys g format quality)]
  rfl

end Arguments

/-- The command over other files. -/
def CompiledCommand.redirect (f : String → String) (c : CompiledCommand) : CompiledCommand :=
  { c with args := Arguments.redirect f c.args }

namespace Plan

variable {p : Plan} {paths : String → Option String}

theorem command_localized (placeable : p.Placeable paths)
    (separates : Graph.Separates (pinned paths) p.assetUrls) (output : String) :
    (p.localized paths).command output =
      (p.command output).map (CompiledCommand.redirect (pinned paths)) := by
  unfold command
  rw [Graph.ofPlan_localized placeable separates]
  cases Graph.ofPlan p with
  | error e => rfl
  | ok g =>
    have hargs : ((g.redirect (pinned paths)).invocation (p.localized paths).encoding output).args =
        Arguments.redirect (pinned paths) (g.invocation p.encoding output).args :=
      (Arguments.redirect_invocation g p.format _ output).symm
    simp only [Except.map, hargs]
    rfl

theorem sources_of_compile {engine : Engine} {output : String} {c : CompiledCommand}
    (h : p.compile engine output = .ok c) : Arguments.valuesOf "-i" c.args = p.assetUrls := by
  obtain ⟨g, hg, _, hargs⟩ := compile_ok h
  obtain ⟨s, _⟩ := Graph.ofPlan_ok hg
  rw [hargs, encoding, Arguments.valuesOf_input, s.inputs_eq]

theorem sources_of_compile_localized (placeable : p.Placeable paths)
    (separates : Graph.Separates (pinned paths) p.assetUrls) {engine : Engine} {output : String}
    {d : CompiledCommand} (h : (p.localized paths).compile engine output = .ok d) :
    Arguments.valuesOf "-i" d.args = p.assetUrls.map (pinned paths) := by
  obtain ⟨g, hg, _, hargs⟩ := compile_ok h
  rw [Graph.ofPlan_localized placeable separates] at hg
  cases hp : Graph.ofPlan p with
  | error e => simp [hp, Except.map] at hg
  | ok original =>
    obtain ⟨s, _⟩ := Graph.ofPlan_ok hp
    rw [hp] at hg
    cases hg
    rw [hargs, encoding, Arguments.valuesOf_input, Graph.redirect, s.inputs_eq]

theorem pinned_of_isSome {url : String} (h : (paths url).isSome) :
    paths url = some (pinned paths url) := by
  obtain ⟨path, hpath⟩ := Option.isSome_iff_exists.1 h
  rw [pinned, hpath]
  rfl

/-- A localized plan compiles exactly if the plan does, with the same fault if not. Its command
is that of the plan but for the files that it opens: the place of each asset stands for the
asset. If every asset has a path, the command opens only those paths. -/
theorem compile_localized (placeable : p.Placeable paths)
    (separates : Graph.Separates (pinned paths) p.assetUrls) (engine : Engine) (output : String) :
    (p.localized paths).compile engine output =
        (p.compile engine output).map (CompiledCommand.redirect (pinned paths)) ∧
      (∀ c, p.compile engine output = .ok c → Arguments.valuesOf "-i" c.args = p.assetUrls) ∧
      ∀ d, (p.localized paths).compile engine output = .ok d →
        Arguments.valuesOf "-i" d.args = p.assetUrls.map (pinned paths) ∧
          ((∀ url ∈ p.assetUrls, (paths url).isSome) →
            ∀ source ∈ Arguments.valuesOf "-i" d.args,
              ∃ url ∈ p.assetUrls, paths url = some source) := by
  refine ⟨?_, fun c hc => sources_of_compile hc, fun d hd => ?_⟩
  · cases engine with
    | serverFfmpeg | planExport => exact command_localized placeable separates output
    | webcodecs | cloudinary => rfl
  · have hsources := sources_of_compile_localized placeable separates hd
    refine ⟨hsources, fun hcovers source hsource => ?_⟩
    rw [hsources] at hsource
    obtain ⟨url, hurl, rfl⟩ := List.mem_map.1 hsource
    exact ⟨url, hurl, pinned_of_isSome (hcovers url hurl)⟩

/-- Where a worker keeps its copies of two files. -/
def workPaths (url : String) : Option String :=
  if url = "a.mp4" then some "/work/source-0.mp4"
  else if url = "b.mp4" then some "/work/source-1.mp4" else none

theorem compile_localized_clip : ∃ c d, clip.compile .serverFfmpeg "clip.mp4" = .ok c ∧
    (clip.localized workPaths).compile .serverFfmpeg "clip.mp4" = .ok d ∧
    d = c.redirect (pinned workPaths) ∧ d.graph = c.graph ∧
    Arguments.valuesOf "-i" d.args = ["/work/source-0.mp4", "/work/source-1.mp4"] := by
  have hassets : clip.assetUrls = ["a.mp4", "b.mp4"] := by decide +kernel
  have placeable : clip.Placeable workPaths := by
    intro url hurl
    rw [hassets] at hurl
    revert url
    decide +kernel
  have separates : Graph.Separates (pinned workPaths) clip.assetUrls := by
    rw [hassets]
    unfold Graph.Separates
    decide +kernel
  have hok : (clip.compile .serverFfmpeg "clip.mp4").isOk = true := by decide +kernel
  obtain ⟨c, hc⟩ := exists_of_isOk hok
  obtain ⟨hcompile, _, hsources⟩ :=
    compile_localized placeable separates .serverFfmpeg "clip.mp4"
  rw [hc] at hcompile
  refine ⟨c, _, hc, hcompile, rfl, rfl, ?_⟩
  rw [(hsources _ hcompile).1, hassets]
  decide +kernel

end Plan

end RenderGateway
