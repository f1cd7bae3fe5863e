import RenderGateway.Proofs.Graph.Wiring

/-!
# Capabilities and filters

The capabilities that a plan requires are read off the plan, and its graph is made by another
traversal of it. `Covered` says that the two agree: a filter that needs a capability is only in the
graph of a plan that requires it. `Sections.runs_iff` lists the filters that a graph runs.
-/

namespace RenderGateway

namespace Graph

/-- Whether a part divides the clock of its frames by a speed. -/
def Filterchain.DividesClock (n : Filterchain) : Prop :=
  ∃ f ∈ n.filters, "setpts=(PTS-STARTPTS)/".toList <+: f.toList

/-- The agreement of the parts of a graph with the capabilities that its plan requires. What takes a
picture from a file is the chain of a segment, and what takes a sound from one that of a track. -/
structure Covered (p : Plan) (chains : List Filterchain) : Prop where
  concat : (∃ n ∈ chains, n.runs "concat") ↔ .segmentReplace ∈ p.requiredCapabilities
  speed : (∃ n ∈ chains, n.opens 'v' ∧ n.DividesClock) ∨
    (∃ n ∈ chains, n.opens 'a' ∧ n.runs "atempo") → .speedChange ∈ p.requiredCapabilities
  effect : (∃ n ∈ chains, n.opens 'v' ∧ ∃ name ∈ effectNames, n.runs name) ↔
    .advancedFilters ∈ p.requiredCapabilities
  fadeIn : (∃ n ∈ chains, n.opens 'v' ∧ n.runs "fade") ↔ .transition ∈ p.requiredCapabilities
  mix : (∃ n ∈ chains, n.runs "amix") ↔ .audioMux ∈ p.requiredCapabilities
  audioFade : (∃ n ∈ chains, n.opens 'a' ∧ n.runs "afade") ↔ .audioFade ∈ p.requiredCapabilities
  drawText : (∃ n ∈ chains, n.runs "drawtext") ↔ .textOverlay ∈ p.requiredCapabilities
  overlay : .overlay ∈ p.requiredCapabilities → ∃ n ∈ chains, n.runs "overlay"

theorem exists_read_iff {nodes : List Node} {P : Filterchain → Prop} :
    (∃ n ∈ nodes.map Node.read, P n) ↔ ∃ n ∈ nodes, P n.read := by
  simp only [List.mem_map, exists_exists_and_eq_and]

theorem dividesClock_read_iff {n : Node} : n.read.DividesClock ↔
    ∃ f ∈ n.chain, "setpts=(PTS-STARTPTS)/".toList <+: f.text.toList := by
  simp only [Filterchain.DividesClock, Node.read, List.mem_map, exists_exists_and_eq_and]

section Chains

theorem exists_effectName_iff (s : Segment) (f : OutputFormat) :
    (∃ name ∈ effectNames, name ∈ (s.chain f).map Filter.name) ↔ s.filters ≠ [] := by
  rw [names_segment]
  constructor
  · rintro ⟨name, heffect, hname⟩ hnone
    rw [hnone] at hname
    generalize s.transition.isSome = fades at hname
    revert fades name
    decide
  · intro hsome
    obtain ⟨effect, heffect⟩ := List.exists_mem_of_ne_nil _ hsome
    exact ⟨effect.filterName, filterName_mem effect, List.mem_append_left _
      (List.mem_append_right _ (List.mem_map_of_mem heffect))⟩

theorem fade_mem_names_iff (s : Segment) (f : OutputFormat) :
    "fade" ∈ (s.chain f).map Filter.name ↔ s.transition.isSome = true := by
  have heffect : "fade" ∉ s.filters.map VideoFilter.filterName :=
    not_mem_filterNames (by decide) s.filters
  rw [names_segment, List.mem_append, List.mem_append]
  simp [heffect]

/-- A stage of a tempo comes from a speed other than one. -/
theorem differsFromOne_of_mem_tempoStages {speed stage : Binary64} (h : stage ∈ tempoStages speed) :
    speed.differsFromOne := by
  unfold tempoStages at h
  split at h
  · split at h
    · next hspeed => exact hspeed.2
    · cases h
  · cases h

theorem eq_retime_of_name {f : Filter} (h : f.name = "setpts") :
    ∃ speed shift, f = .retime speed shift := by
  cases f with
  | retime speed shift => exact ⟨speed, shift, rfl⟩
  | effect filter => cases filter <;> simp [Filter.name, VideoFilter.filterName] at h
  | _ => simp [Filter.name] at h

/-- Only the clock of a segment that changes its speed is divided. -/
theorem changesSpeed_of_divided {s : Segment} {f : OutputFormat} {filter : Filter}
    (hmem : filter ∈ s.chain f)
    (hstart : "setpts=(PTS-STARTPTS)/".toList <+: filter.text.toList) : s.changesSpeed = true := by
  have hname : filter.name = "setpts" := by
    rw [← Filter.nameOf_text, nameOf_of_prefix (by decide +kernel) hstart]
    decide +kernel
  obtain ⟨speed, shift, rfl⟩ := eq_retime_of_name hname
  have hspeed : speed = if s.changesSpeed then some s.speed else none := by
    unfold Segment.chain fitFrame at hmem
    cases htransition : s.transition <;> simp [htransition] at hmem <;> exact hmem.1
  by_contra hsame
  rw [if_neg hsame] at hspeed
  have hplain : "setpts=PTS-STARTPTS".toList <+: (Filter.retime speed shift).text.toList := by
    rw [hspeed]
    change _ <+: ("setpts=" ++ ("PTS-STARTPTS" ++ _)).toList
    rw [← String.append_assoc, String.toList_append]
    exact List.prefix_append _ _
  have hboth := List.prefix_of_prefix_length_le hplain hstart (by decide +kernel)
  revert hboth
  decide +kernel

end Chains

section Nodes

variable {α : Type}

theorem map_chain_of_streamNodes {asset? : α → Option String} {missing : α → CompileError}
    {node : α → Nat → Nat → Node} {chain : α → List Filter}
    (hchain : ∀ a i k, (node a i k).chain = chain a)
    {inputs final : List String} {index : Nat} {items : List α} {nodes : List Node}
    (h : streamNodes asset? missing node inputs index items = .ok (final, nodes)) :
    nodes.map Node.chain = items.map chain := by
  induction items generalizing inputs index nodes with
  | nil =>
    cases h
    rfl
  | cons a rest ih =>
    obtain ⟨asset, tail, _, hr, rfl⟩ := streamNodes_cons_ok h
    rw [List.map_cons, List.map_cons, hchain, ih hr]

theorem map_chain_mapIdx {node : Nat → α → Node} {chain : α → List Filter}
    (hchain : ∀ k a, (node k a).chain = chain a) (items : List α) :
    (items.mapIdx node).map Node.chain = items.map chain := by
  apply List.ext_getElem?
  intro k
  simp only [List.getElem?_map, List.getElem?_mapIdx, Option.map_map]
  exact Option.map_congr fun a _ => hchain k a

end Nodes

theorem segmentNode_chain (f : OutputFormat) (s : Segment) (i k : Nat) :
    (segmentNode f s i k).chain = s.chain f := rfl

theorem trackNode_chain (t : AudioTrack) (i k : Nat) : (trackNode t i k).chain = t.chain := rfl

theorem compositeNode_chain (first : Label) (k : Nat) (u : Segment × Nat) :
    (compositeNode first k u).chain =
      [.overlay u.1.timelineStart.toInt u.1.timelineEnd.toInt] := rfl

theorem captionNode_chain (first : Label) (k : Nat) (o : TextOverlay) :
    (captionNode first k o).chain = [.drawText o] := rfl

namespace Sections

variable {p : Plan} {g : Graph}

theorem map_chain_segments (s : Sections p g) :
    s.segments.map Node.chain = p.timeline.map fun a => a.chain p.format :=
  map_chain_of_streamNodes (segmentNode_chain p.format) s.segments_eq

theorem map_chain_tracks (s : Sections p g) :
    s.tracks.map Node.chain = p.audioTracks.map AudioTrack.chain :=
  map_chain_of_streamNodes trackNode_chain s.tracks_eq

/-- The chains of a compiled graph, in the order of its nodes. -/
theorem map_chain_nodes (s : Sections p g) : s.nodes.map Node.chain =
    p.timeline.map (fun a => a.chain p.format) ++
    (if 2 ≤ p.baseSegments.length then [[.concat p.baseSegments.length]] else []) ++
    (upperSegments p).map (fun u => [.overlay u.1.timelineStart.toInt u.1.timelineEnd.toInt]) ++
    (orderedTexts p).map (fun o => [.drawText o]) ++ p.audioTracks.map AudioTrack.chain ++
    [s.sound.chain] := by
  have hjoin : s.join.map Node.chain =
      if 2 ≤ p.baseSegments.length then [[.concat p.baseSegments.length]] else [] := by
    rw [← baseLabels_length]
    rcases joinBase_ok s.join_eq with ⟨hlabels, hjoin⟩ | ⟨htwo, _, hjoin⟩
    · simp [hlabels, hjoin]
    · simp [htwo, hjoin]
  have hcomposites : s.composites.map Node.chain = (upperSegments p).map fun u =>
      [.overlay u.1.timelineStart.toInt u.1.timelineEnd.toInt] :=
    map_chain_mapIdx (compositeNode_chain s.bottom) _
  have hcaptions : s.captions.map Node.chain = (orderedTexts p).map fun o => [.drawText o] :=
    map_chain_mapIdx (captionNode_chain s.composed) _
  simp only [nodes, List.map_append, map_chain_segments, hjoin, hcomposites, hcaptions,
    map_chain_tracks, List.map_singleton]

/-- What holds of a chain of a compiled graph holds of the chain of a segment or a track, or of
one of the single filters between them, or of the sound. -/
theorem exists_chain_iff (s : Sections p g) {R : List Filter → Prop} :
    (∃ n ∈ s.nodes, R n.chain) ↔
      (∃ a ∈ p.timeline, R (a.chain p.format)) ∨
      (2 ≤ p.baseSegments.length ∧ R [.concat p.baseSegments.length]) ∨
      (∃ u ∈ upperSegments p, R [.overlay u.1.timelineStart.toInt u.1.timelineEnd.toInt]) ∨
      (∃ o ∈ orderedTexts p, R [.drawText o]) ∨
      (∃ t ∈ p.audioTracks, R t.chain) ∨ R s.sound.chain := by
  have hmap : (∃ n ∈ s.nodes, R n.chain) ↔ ∃ c ∈ s.nodes.map Node.chain, R c := by
    simp only [List.mem_map, exists_exists_and_eq_and]
  rw [hmap, map_chain_nodes]
  simp only [List.mem_append, or_and_right, exists_or, List.mem_map, exists_exists_and_eq_and,
    List.mem_ite_nil_right, List.mem_singleton, and_assoc, exists_and_left, exists_eq_left,
    or_assoc]

theorem exists_segment_iff (s : Sections p g) {R : List Filter → Prop} :
    (∃ n ∈ s.nodes, n.read.opens 'v' ∧ R n.chain) ↔ ∃ a ∈ p.timeline, R (a.chain p.format) := by
  constructor
  · rintro ⟨n, hn, hopens, hR⟩
    obtain ⟨k, ⟨hpad, _⟩ | ⟨_, hkind⟩⟩ := opens_read_iff.1 hopens
    · obtain ⟨i, hi⟩ := (s.arises hn).label_of_video hpad
      obtain ⟨a, k, asset, ha, _, _, rfl⟩ := (s.arises hn).segment_of_label hi
      exact ⟨a, List.mem_of_getElem? ha, hR⟩
    · cases hkind
  · rintro ⟨a, ha, hR⟩
    have hmem : a.chain p.format ∈ s.segments.map Node.chain := by
      rw [map_chain_segments]
      exact List.mem_map_of_mem ha
    obtain ⟨n, hn, hchain⟩ := List.mem_map.1 hmem
    obtain ⟨i, b, k, asset, _, _, _, rfl⟩ := s.mem_segments hn
    have hopens : (segmentNode p.format b i k).read.opens 'v' = true :=
      opens_read_iff.2 ⟨k, .inl ⟨List.mem_singleton.2 rfl, rfl⟩⟩
    exact ⟨_, by simp [nodes, hn], hopens, hchain ▸ hR⟩

theorem exists_track_iff (s : Sections p g) {R : List Filter → Prop} :
    (∃ n ∈ s.nodes, n.read.opens 'a' ∧ R n.chain) ↔ ∃ t ∈ p.audioTracks, R t.chain := by
  constructor
  · rintro ⟨n, hn, hopens, hR⟩
    obtain ⟨k, ⟨_, hkind⟩ | ⟨hpad, _⟩⟩ := opens_read_iff.1 hopens
    · cases hkind
    · obtain ⟨j, hj⟩ := (s.arises hn).label_of_audio hpad
      obtain ⟨t, k, asset, ht, _, _, rfl⟩ := (s.arises hn).track_of_label hj
      exact ⟨t, List.mem_of_getElem? ht, hR⟩
  · rintro ⟨t, ht, hR⟩
    have hmem : t.chain ∈ s.tracks.map Node.chain := by
      rw [map_chain_tracks]
      exact List.mem_map_of_mem ht
    obtain ⟨n, hn, hchain⟩ := List.mem_map.1 hmem
    obtain ⟨j, b, k, asset, _, _, _, rfl⟩ := s.mem_tracks hn
    have hopens : (trackNode b j k).read.opens 'a' = true :=
      opens_read_iff.2 ⟨k, .inr ⟨List.mem_singleton.2 rfl, rfl⟩⟩
    exact ⟨_, by simp [nodes, hn], hopens, hchain ▸ hR⟩

/-- A filter that is in no chain of a segment or a track is one of the joining ones. -/
theorem runs_iff (s : Sections p g) {name : String} (hsegment : name ∉ segmentNames)
    (htrack : name ∉ trackNames) :
    (∃ n ∈ s.nodes.map Node.read, n.runs name = true) ↔
      (2 ≤ p.baseSegments.length ∧ name = "concat") ∨
      (p.layerSegments ≠ [] ∧ name = "overlay") ∨
      (p.textOverlays ≠ [] ∧ name = "drawtext") ∨ name ∈ s.sound.chain.map Filter.name := by
  have hupper : (∃ u, u ∈ upperSegments p) ↔ p.layerSegments ≠ [] := by
    rw [← List.length_pos_iff_exists_mem, upperSegments_length, List.length_pos_iff]
  have htexts : (∃ o, o ∈ orderedTexts p) ↔ p.textOverlays ≠ [] := by
    rw [← List.length_pos_iff_exists_mem, orderedTexts_length, List.length_pos_iff]
  have hsegments : ¬ ∃ a ∈ p.timeline, name ∈ (a.chain p.format).map Filter.name :=
    fun ⟨a, _, hname⟩ => hsegment (names_segment_subset a p.format hname)
  have htracks : ¬ ∃ t ∈ p.audioTracks, name ∈ t.chain.map Filter.name :=
    fun ⟨t, _, hname⟩ => htrack (names_track_subset t hname)
  rw [exists_read_iff]
  simp only [runs_read_iff]
  rw [s.exists_chain_iff (R := fun chain => name ∈ chain.map Filter.name)]
  simp only [hsegments, htracks, false_or, List.map_singleton, List.mem_singleton, Filter.name,
    exists_and_right, hupper, htexts, ne_eq]

theorem covered (s : Sections p g) : Covered p (s.nodes.map Node.read) where
  concat := by
    rw [s.runs_iff (by decide) (by decide), Plan.mem_requiredCapabilities, sound_names]
    by_cases h : p.audioTracks = []
    · simp [h, Plan.requires, Nat.lt_iff_add_one_le]
    · simp [h, Plan.requires, Nat.lt_iff_add_one_le]
  speed := by
    rw [exists_read_iff, exists_read_iff, Plan.mem_requiredCapabilities]
    simp only [runs_read_iff, dividesClock_read_iff, Plan.requires, Bool.or_eq_true,
      List.any_eq_true]
    rintro (h | h)
    · obtain ⟨a, ha, f, hf, hstart⟩ := (s.exists_segment_iff (R := fun chain =>
        ∃ f ∈ chain, "setpts=(PTS-STARTPTS)/".toList <+: f.text.toList)).1 h
      exact .inl ⟨a, ha, changesSpeed_of_divided hf hstart⟩
    · obtain ⟨t, ht, hname⟩ := (s.exists_track_iff (R := fun chain =>
        "atempo" ∈ chain.map Filter.name)).1 h
      have hstages : tempoStages t.speed ≠ [] := by
        rw [names_track] at hname
        simpa using hname
      obtain ⟨stage, hstage⟩ := List.exists_mem_of_ne_nil _ hstages
      exact .inr ⟨t, ht, decide_eq_true (differsFromOne_of_mem_tempoStages hstage)⟩
  effect := by
    rw [exists_read_iff, Plan.mem_requiredCapabilities]
    simp only [runs_read_iff]
    rw [s.exists_segment_iff (R := fun chain =>
      ∃ name ∈ effectNames, name ∈ chain.map Filter.name)]
    simp only [exists_effectName_iff, Plan.requires, List.any_eq_true]
    simp
  fadeIn := by
    rw [exists_read_iff, Plan.mem_requiredCapabilities]
    simp only [runs_read_iff]
    rw [s.exists_segment_iff (R := fun chain => "fade" ∈ chain.map Filter.name)]
    simp only [fade_mem_names_iff, Plan.requires, List.any_eq_true]
  mix := by
    rw [s.runs_iff (by decide) (by decide), Plan.mem_requiredCapabilities, sound_names]
    by_cases h : p.audioTracks = []
    · simp [h, Plan.requires]
    · simp [h, Plan.requires]
  audioFade := by
    rw [exists_read_iff, Plan.mem_requiredCapabilities]
    simp only [runs_read_iff]
    rw [s.exists_track_iff (R := fun chain => "afade" ∈ chain.map Filter.name)]
    simp only [names_track, Plan.requires, List.any_eq_true]
    simp [AudioTrack.hasFade]
  drawText := by
    rw [s.runs_iff (by decide) (by decide), Plan.mem_requiredCapabilities, sound_names]
    by_cases h : p.audioTracks = []
    · simp [h, Plan.requires]
    · simp [h, Plan.requires]
  overlay := by
    intro h
    rw [Plan.mem_requiredCapabilities] at h
    obtain ⟨upper, hupper, _⟩ := List.any_eq_true.1 h
    exact (s.runs_iff (by decide) (by decide)).2 (.inr (.inl ⟨List.ne_nil_of_mem hupper, rfl⟩))

end Sections

end Graph

namespace Plan

open RenderGateway.Graph

/-- The filters that are read in the text of a compiled graph, which is the graph of the command,
are those that the required capabilities of the plan announce. -/
theorem covered_of_compile {p : Plan} {engine : Engine} {output : String} {c : CompiledCommand}
    (h : p.compile engine output = .ok c) :
    Arguments.valuesOf "-filter_complex" c.args = [c.graph] ∧ Covered p (readGraph c.graph) := by
  obtain ⟨g, s, _, _, _, hgraph, hargs, hread⟩ := read_of_compile h
  constructor
  · rw [hargs, hgraph]
    exact Arguments.valuesOf_graph g _ _ _
  · rw [hread]
    exact s.covered

/-- The clip with its first segment at double speed, blurred and faded in, and its track faded. -/
def vividClip : Plan :=
  { clip with
    timeline := clip.timeline.mapIdx fun i s =>
      if i = 0 then
        { s with
          trimEnd := 2000
          speed := 2
          filters := [.blur 4]
          transition := some ⟨.fade, 100⟩ }
      else s
    audioTracks := clip.audioTracks.map fun t => { t with speed := 2, fadeIn := 100 } }

theorem covered_of_vividClip : ∃ c, vividClip.compile .serverFfmpeg "clip.mp4" = .ok c ∧
    Covered vividClip (readGraph c.graph) := by
  have hok : (vividClip.compile .serverFfmpeg "clip.mp4").isOk = true := by decide +kernel
  obtain ⟨c, hc⟩ := exists_of_isOk hok
  exact ⟨c, hc, (covered_of_compile hc).2⟩

end Plan

end RenderGateway
