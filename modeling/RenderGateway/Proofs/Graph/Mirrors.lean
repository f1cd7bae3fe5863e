import RenderGateway.Proofs.Graph.Sections
import RenderGateway.Proofs.Plan.Localization

/-!
# Plans with the same graph over other files

A graph is made of less than a whole plan. Two plans whose items differ in no more than their
assets and in what is known of their sources have the same graph, over the files that stand for
the assets: what distinguishes inputs is whether they are equal, and different assets have
different files.
-/

namespace RenderGateway

/-- The other plan has the items of the plan, with other assets or other knowledge of their
sources: an item that reads an asset in the plan reads what stands for that in the other one. -/
structure Plan.Mirrors (f : String → String) (segment : Segment → Segment)
    (track : AudioTrack → AudioTrack) (p q : Plan) : Prop where
  format : q.format = p.format
  texts : q.textOverlays = p.textOverlays
  timeline : q.timeline = p.timeline.map segment
  tracks : q.audioTracks = p.audioTracks.map track
  segment_eq : ∀ s, segment s =
    { s with assetUrl := (segment s).assetUrl, sourceDuration := (segment s).sourceDuration }
  track_eq : ∀ t, track t = { t with assetUrl := (track t).assetUrl }
  segmentAsset : ∀ s ∈ p.timeline, q.segmentAsset (segment s) = (p.segmentAsset s).map f
  audioAsset : ∀ t ∈ p.audioTracks, q.audioAsset (track t) = (p.audioAsset t).map f

namespace Plan.Mirrors

variable {f : String → String} {segment : Segment → Segment} {track : AudioTrack → AudioTrack}
  {p q : Plan}

theorem isBase (h : Mirrors f segment track p q) (s : Segment) : (segment s).isBase = s.isBase := by
  rw [h.segment_eq]
  rfl

theorem layer (h : Mirrors f segment track p q) (s : Segment) : (segment s).layer = s.layer := by
  rw [h.segment_eq]

theorem baseSegments (h : Mirrors f segment track p q) :
    q.baseSegments = p.baseSegments.map segment := by
  simp only [Plan.baseSegments, h.timeline, List.filter_map, Function.comp_def, h.isBase]

theorem outputDuration (h : Mirrors f segment track p q) : q.outputDuration = p.outputDuration := by
  have hlength (s : Segment) : (segment s).outputDuration = s.outputDuration := by
    rw [h.segment_eq]
  rw [Plan.outputDuration, Plan.outputDuration, Plan.joinedDuration, Plan.joinedDuration,
    h.baseSegments, List.map_map]
  simp only [Function.comp_def, hlength]

end Plan.Mirrors

namespace Graph

/-- The graph over other files. -/
def redirect (f : String → String) (g : Graph) : Graph := { g with inputs := g.inputs.map f }

section

variable {f : String → String} {used : List String}

/-- Different files among those used have different places. -/
def Separates (f : String → String) (used : List String) : Prop :=
  ∀ u ∈ used, ∀ v ∈ used, f u = f v → u = v

/-- The place of an asset is found where the asset was. -/
theorem findIdx?_place (hf : Separates f used) {inputs : List String} (hinputs : inputs ⊆ used)
    {asset : String} (hasset : asset ∈ used) :
    (inputs.map f).findIdx? (fun a => a = f asset) = inputs.findIdx? fun a => a = asset := by
  induction inputs with
  | nil => rfl
  | cons a rest ih =>
    obtain ⟨ha, hrest⟩ := List.cons_subset.1 hinputs
    have heq : decide (f a = f asset) = decide (a = asset) :=
      decide_eq_decide.2 ⟨hf a ha asset hasset, congrArg f⟩
    rw [List.map_cons, List.findIdx?_cons, List.findIdx?_cons, ih hrest, heq]

theorem withInput_map (hf : Separates f used) {inputs : List String} (hinputs : inputs ⊆ used)
    {asset : String} (hasset : asset ∈ used) :
    withInput (inputs.map f) (f asset) =
      ((withInput inputs asset).1.map f, (withInput inputs asset).2) := by
  unfold withInput
  rw [findIdx?_place hf hinputs hasset]
  cases inputs.findIdx? fun a => a = asset <;> simp

theorem withInput_subset {inputs : List String} (hinputs : inputs ⊆ used) {asset : String}
    (hasset : asset ∈ used) : (withInput inputs asset).1 ⊆ used := by
  unfold withInput
  split
  · exact hinputs
  · exact List.append_subset.2 ⟨hinputs, List.cons_subset.2 ⟨hasset, List.nil_subset _⟩⟩

variable {α : Type} {asset? place? : α → Option String} {missing : α → CompileError}
  {node : α → Nat → Nat → Node}

theorem streamNodes_subset {inputs final : List String} (hinputs : inputs ⊆ used) {index : Nat}
    {items : List α} {nodes : List Node} (hused : ∀ a ∈ items, ∀ u, asset? a = some u → u ∈ used)
    (h : streamNodes asset? missing node inputs index items = .ok (final, nodes)) :
    final ⊆ used := by
  induction items generalizing inputs index nodes with
  | nil =>
    cases h
    exact hinputs
  | cons a rest ih =>
    obtain ⟨asset, tail, ha, hrest, _⟩ := streamNodes_cons_ok h
    obtain ⟨hfirst, hothers⟩ := List.forall_mem_cons.1 hused
    exact ih (withInput_subset hinputs (hfirst asset ha)) hothers hrest

/-- Items that are alike but for the places of their assets have the same nodes. -/
theorem streamNodes_map (hf : Separates f used) {change : α → α}
    (hmissing : ∀ a, missing (change a) = missing a)
    (hnode : ∀ a i k, node (change a) i k = node a i k)
    {items : List α} (hused : ∀ a ∈ items, ∀ u, asset? a = some u → u ∈ used)
    (hplace : ∀ a ∈ items, place? (change a) = (asset? a).map f)
    {inputs : List String} (hinputs : inputs ⊆ used) (index : Nat) :
    streamNodes place? missing node (inputs.map f) index (items.map change) =
      (streamNodes asset? missing node inputs index items).map fun r => (r.1.map f, r.2) := by
  induction items generalizing inputs index with
  | nil => rfl
  | cons a rest ih =>
    obtain ⟨hfirst, hothers⟩ := List.forall_mem_cons.1 hused
    obtain ⟨hpa, hprest⟩ := List.forall_mem_cons.1 hplace
    cases ha : asset? a with
    | none => simp [streamNodes, hpa, ha, hmissing, Except.map]
    | some asset =>
      have hrest := ih hothers hprest (withInput_subset hinputs (hfirst asset ha)) (index + 1)
      simp only [List.map_cons, streamNodes, hpa, ha, Option.map_some,
        withInput_map hf hinputs (hfirst asset ha), hrest, hnode]
      cases streamNodes asset? missing node (withInput inputs asset).1 (index + 1) rest <;> rfl

end

section

variable {f : String → String} {segment : Segment → Segment} {track : AudioTrack → AudioTrack}
  {p q : Plan}

theorem baseLabels_mirrors (h : p.Mirrors f segment track q) : baseLabels q = baseLabels p := by
  simp only [baseLabels, h.timeline, List.zipIdx_map, List.filter_map, List.map_map,
    Function.comp_def, Prod.map_fst, Prod.map_snd, h.isBase, id_eq]

theorem upperSegments_mirrors (h : p.Mirrors f segment track q) :
    upperSegments q = (upperSegments p).map (Prod.map segment id) := by
  simp only [upperSegments, h.timeline, List.zipIdx_map, List.filter_map, Function.comp_def,
    Prod.map_fst, h.isBase]
  refine (List.map_mergeSort fun a _ b _ => ?_).symm
  rw [Prod.map_fst, Prod.map_fst, h.layer, h.layer]

theorem composites_mirrors (h : p.Mirrors f segment track q) (bottom : Label) :
    (upperSegments q).mapIdx (compositeNode bottom) =
      (upperSegments p).mapIdx (compositeNode bottom) := by
  have hnode (k : Nat) (upper : Segment × Nat) :
      compositeNode bottom k (Prod.map segment id upper) = compositeNode bottom k upper := by
    rw [compositeNode, Prod.map_fst, h.segment_eq]
    rfl
  refine List.ext_getElem? fun k => ?_
  rw [upperSegments_mirrors h]
  simp only [List.getElem?_mapIdx, List.getElem?_map, Option.map_map, Function.comp_def, hnode]

theorem segmentNodes_mirrors (h : p.Mirrors f segment track q) (hf : Separates f p.assetUrls) :
    segmentNodes q [] 0 q.timeline =
      (segmentNodes p [] 0 p.timeline).map fun r => (r.1.map f, r.2) := by
  rw [h.timeline, segmentNodes, h.format]
  refine streamNodes_map hf (fun s => ?_) (fun s i k => ?_)
    (fun s hs url => Plan.segmentAsset_mem hs) h.segmentAsset (List.nil_subset _) 0
  · rw [h.segment_eq]
  · rw [h.segment_eq]
    rfl

theorem trackNodes_mirrors (h : p.Mirrors f segment track q) (hf : Separates f p.assetUrls)
    {inputs : List String} (hinputs : inputs ⊆ p.assetUrls) :
    trackNodes q (inputs.map f) 0 q.audioTracks =
      (trackNodes p inputs 0 p.audioTracks).map fun r => (r.1.map f, r.2) := by
  rw [h.tracks]
  refine streamNodes_map hf (fun t => ?_) (fun t i k => ?_)
    (fun t ht url => Plan.audioAsset_mem ht) h.audioAsset hinputs 0
  · rw [h.track_eq]
  · rw [h.track_eq]
    rfl

/-- A plan that mirrors another has its graph over the files that stand for its assets, or the
same fault. -/
theorem ofPlan_mirrors (h : p.Mirrors f segment track q) (hf : Separates f p.assetUrls) :
    ofPlan q = (ofPlan p).map (redirect f) := by
  have hupper : (upperSegments q).length = (upperSegments p).length := by
    rw [upperSegments_mirrors h, List.length_map]
  have htracks : q.audioTracks.length = p.audioTracks.length := by
    rw [h.tracks, List.length_map]
  have htexts : orderedTexts q = orderedTexts p := by
    rw [orderedTexts, orderedTexts, h.texts]
  by_cases hd : p.outputDuration ≤ 0
  · simp only [ofPlan, h.outputDuration, if_pos hd]
    rfl
  · simp only [ofPlan, h.outputDuration, if_neg hd, segmentNodes_mirrors h hf,
      baseLabels_mirrors h, composites_mirrors h, hupper, htexts, htracks]
    cases hs : segmentNodes p [] 0 p.timeline with
    | error e => rfl
    | ok r =>
      obtain ⟨inputs, segments⟩ := r
      have hinputs : inputs ⊆ p.assetUrls :=
        streamNodes_subset (List.nil_subset _) (fun s hs url => Plan.segmentAsset_mem hs) hs
      cases hj : joinBase (baseLabels p) with
      | error e => rfl
      | ok r =>
        obtain ⟨bottom, join⟩ := r
        cases hx : syntaxError? (orderedTexts p) with
        | some e => rfl
        | none =>
          simp only [Except.map, bind_ok_eq]
          rw [trackNodes_mirrors h hf hinputs]
          cases trackNodes p inputs 0 p.audioTracks <;> rfl

end

end Graph

end RenderGateway
