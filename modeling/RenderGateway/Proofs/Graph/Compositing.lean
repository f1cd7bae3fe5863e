import RenderGateway.Proofs.Engine.Routing
import RenderGateway.Proofs.Graph.Coverage
import RenderGateway.Proofs.Graph.Windows

/-!
# Layers and the overlay capability

Every segment above the base is laid over the joined base, at its own time. The overlay capability
is required where such a segment shares its time with a segment of the base, so that a layer beside
the base is composited without it. The two agree on all layers that are seen, if the base segments
leave no gap in the output.
-/

namespace RenderGateway

namespace Plan

/-- Whether a segment of the base plays at every time of the output. -/
def BaseFills (p : Plan) : Prop :=
  ∀ t, 0 ≤ t → t < p.outputDuration →
    ∃ b ∈ p.baseSegments, b.timelineStart.toInt ≤ t ∧ t < b.timelineEnd.toInt

theorem overlay_mem_requiredCapabilities_iff {p : Plan} :
    .overlay ∈ p.requiredCapabilities ↔ ∃ s ∈ p.layerSegments, ∃ b ∈ p.baseSegments,
      s.timelineStart.toInt < b.timelineEnd.toInt ∧
        b.timelineStart.toInt < s.timelineEnd.toInt := by
  simp only [mem_requiredCapabilities, requires, overlapsBase, List.any_eq_true, Segment.overlaps,
    Bool.and_eq_true, decide_eq_true_eq]

theorem ordered_requiredCapabilities (p : Plan) :
    Capability.ordered p.requiredCapabilities = p.requiredCapabilities := by
  refine List.filter_congr fun c _ => ?_
  simp [mem_requiredCapabilities]

/-- The engine that is selected for a plan supports all that the plan requires. -/
theorem covers_of_route (p : Plan) (engines : List Engine) :
    (p.route engines).selected.Covers p.requiredCapabilities := by
  have hrule := Engine.routes p.requiredCapabilities engines
  rw [ordered_requiredCapabilities] at hrule
  change Engine.Routes _ _ (p.route engines) at hrule
  generalize p.route engines = d at hrule ⊢
  cases hrule with
  | selected renders covers passed => exact covers
  | exported passed => exact fun _ _ => rfl

end Plan

namespace Graph

/-- Whether a part lays a picture over another within a window of time, in milliseconds. -/
def Filterchain.Lays (start stop : Int) (n : Filterchain) : Prop :=
  ∃ f ∈ n.filters, nameOf f = "overlay" ∧ Enabled start stop f

/-- Whether a part lays a picture over another at a time at which a segment of the base plays. -/
def LaysOverBase (p : Plan) (n : Filterchain) : Prop :=
  ∃ start stop, n.Lays start stop ∧
    ∃ b ∈ p.baseSegments, start < b.timelineEnd.toInt ∧ b.timelineStart.toInt < stop

/-- Whether a part lays a picture over another at a time within the output. -/
def LaysWithin (p : Plan) (n : Filterchain) : Prop :=
  ∃ start stop, n.Lays start stop ∧ ∃ t, start ≤ t ∧ t < stop ∧ 0 ≤ t ∧ t < p.outputDuration

theorem eq_overlay_of_name {f : Filter} (h : f.name = "overlay") :
    ∃ start stop, f = .overlay start stop := by
  cases f with
  | overlay start stop => exact ⟨start, stop, rfl⟩
  | effect filter => cases filter <;> simp [Filter.name, VideoFilter.filterName] at h
  | _ => simp [Filter.name] at h

/-- The windows that are read in a part are those of the filters that it was made of. -/
theorem lays_read_iff {n : Node} {start stop : Int} :
    n.read.Lays start stop ↔ .overlay start stop ∈ n.chain := by
  constructor
  · rintro ⟨_, hf, hname, henabled⟩
    obtain ⟨f, hmem, rfl⟩ := List.mem_map.1 hf
    rw [Filter.nameOf_text] at hname
    obtain ⟨start', stop', rfl⟩ := eq_overlay_of_name hname
    obtain ⟨rfl, rfl⟩ := henabled.inj (enabled_overlay start' stop')
    exact hmem
  · intro hmem
    exact ⟨_, List.mem_map_of_mem hmem, Filter.nameOf_text _, enabled_overlay start stop⟩

theorem overlay_not_mem {chain : List Filter} {names : List String}
    (hsub : chain.map Filter.name ⊆ names) (hnot : "overlay" ∉ names) (start stop : Int) :
    .overlay start stop ∉ chain :=
  fun hmem => hnot (hsub (List.mem_map_of_mem (f := Filter.name) hmem))

theorem exists_upperSegment_iff {p : Plan} {Q : Segment → Prop} :
    (∃ u ∈ upperSegments p, Q u.1) ↔ ∃ s ∈ p.layerSegments, Q s := by
  simp only [upperSegments, List.mem_mergeSort, List.mem_filter, Plan.layerSegments]
  constructor
  · rintro ⟨u, ⟨hmem, hupper⟩, hQ⟩
    exact ⟨u.1, ⟨List.fst_mem_of_mem_zipIdx hmem, hupper⟩, hQ⟩
  · rintro ⟨s, ⟨hmem, hupper⟩, hQ⟩
    obtain ⟨i, hi⟩ := List.getElem?_of_mem hmem
    exact ⟨(s, i), ⟨List.mk_mem_zipIdx_iff_getElem?.2 hi, hupper⟩, hQ⟩

namespace Sections

variable {p : Plan} {g : Graph}

/-- The layers that a compiled graph composites are those of the plan, each in its own window. -/
theorem exists_overlay_iff (s : Sections p g) {R : Int → Int → Prop} :
    (∃ n ∈ s.nodes, ∃ start stop, .overlay start stop ∈ n.chain ∧ R start stop) ↔
      ∃ a ∈ p.layerSegments, R a.timelineStart.toInt a.timelineEnd.toInt := by
  let Lays (chain : List Filter) : Prop := ∃ start stop, .overlay start stop ∈ chain ∧ R start stop
  have hno {chain : List Filter} {names : List String} (hsub : chain.map Filter.name ⊆ names)
      (hnot : "overlay" ∉ names) : ¬ Lays chain := by
    rintro ⟨start, stop, hmem, _⟩
    exact overlay_not_mem hsub hnot start stop hmem
  have hsegments : ¬ ∃ a ∈ p.timeline, Lays (a.chain p.format) :=
    fun ⟨a, _, hlays⟩ => hno (names_segment_subset a p.format) (by decide) hlays
  have htracks : ¬ ∃ t ∈ p.audioTracks, Lays t.chain :=
    fun ⟨t, _, hlays⟩ => hno (names_track_subset t) (by decide) hlays
  have hsound : ¬ Lays s.sound.chain := by
    refine hno (List.Subset.refl _) ?_
    rw [sound_names]
    split <;> decide
  have hconcat (n : Nat) : ¬ Lays [.concat n] := by simp [Lays]
  have htext (o : TextOverlay) : ¬ Lays [.drawText o] := by simp [Lays]
  have hupper (u : Segment × Nat) :
      Lays [.overlay u.1.timelineStart.toInt u.1.timelineEnd.toInt] ↔
        R u.1.timelineStart.toInt u.1.timelineEnd.toInt := by
    simp [Lays]
  rw [s.exists_chain_iff (R := Lays)]
  simp only [hsegments, htracks, hsound, hconcat, htext, hupper, and_false, exists_false, false_or,
    or_false]
  exact exists_upperSegment_iff (Q := fun a => R a.timelineStart.toInt a.timelineEnd.toInt)

/-- A graph lays a picture over the base in its time exactly if its plan requires overlays. -/
theorem laysOverBase_iff (s : Sections p g) :
    (∃ n ∈ s.nodes.map Node.read, LaysOverBase p n) ↔ .overlay ∈ p.requiredCapabilities := by
  rw [Plan.overlay_mem_requiredCapabilities_iff, exists_read_iff]
  simp only [LaysOverBase, lays_read_iff]
  exact s.exists_overlay_iff

theorem composites_iff (s : Sections p g) :
    (∃ n ∈ s.nodes.map Node.read, n.runs "overlay" = true) ↔ p.layerSegments ≠ [] := by
  rw [s.runs_iff (by decide) (by decide), sound_names]
  by_cases h : p.audioTracks = []
  · simp [h]
  · simp [h]

end Sections

/-- Where the base leaves no gap, a layer that is seen is laid over the base in its time. -/
theorem LaysWithin.laysOverBase {p : Plan} (fills : p.BaseFills) {n : Filterchain}
    (h : LaysWithin p n) : LaysOverBase p n := by
  obtain ⟨start, stop, hlays, t, hstart, hstop, hpos, hlt⟩ := h
  obtain ⟨b, hb, hfrom, huntil⟩ := fills t hpos hlt
  exact ⟨start, stop, hlays, b, hb, by omega, by omega⟩

end Graph

namespace Plan

open RenderGateway.Graph

/-- The text of a compiled graph, which is the graph of the command, composites the layers of its
plan. It lays one over the base in its time exactly if the plan requires overlays, so that no engine
without them is selected then; where the base leaves no gap this takes in every layer that is
seen. -/
theorem overlay_of_compile {p : Plan} {engine : Engine} {output : String} {c : CompiledCommand}
    (h : p.compile engine output = .ok c) :
    Arguments.valuesOf "-filter_complex" c.args = [c.graph] ∧
    ((∃ n ∈ readGraph c.graph, n.runs "overlay") ↔ p.layerSegments ≠ []) ∧
    ((∃ n ∈ readGraph c.graph, LaysOverBase p n) ↔ .overlay ∈ p.requiredCapabilities) ∧
    (p.BaseFills → (∃ n ∈ readGraph c.graph, LaysWithin p n) →
      .overlay ∈ p.requiredCapabilities) ∧
    ∀ engines, (p.route engines).selected.supports .overlay = false →
      ∀ n ∈ readGraph c.graph, ¬ LaysOverBase p n := by
  obtain ⟨g, s, _, _, _, hgraph, hargs, hread⟩ := read_of_compile h
  have hiff : (∃ n ∈ readGraph c.graph, LaysOverBase p n) ↔ .overlay ∈ p.requiredCapabilities := by
    rw [hread]
    exact s.laysOverBase_iff
  refine ⟨?_, ?_, hiff, ?_, ?_⟩
  · rw [hargs, hgraph]
    exact Arguments.valuesOf_graph g _ _ _
  · rw [hread]
    exact s.composites_iff
  · rintro fills ⟨n, hn, hwithin⟩
    exact hiff.1 ⟨n, hn, hwithin.laysOverBase fills⟩
  · intro engines hlacks n hn hlays
    have hcovers := p.covers_of_route engines _ (hiff.1 ⟨n, hn, hlays⟩)
    rw [hlacks] at hcovers
    cases hcovers

theorem overlay_of_clip : ∃ c, clip.compile .serverFfmpeg "clip.mp4" = .ok c ∧
    (∃ n ∈ readGraph c.graph, LaysOverBase clip n) ∧ .overlay ∈ clip.requiredCapabilities := by
  have hok : (clip.compile .serverFfmpeg "clip.mp4").isOk = true := by decide +kernel
  obtain ⟨c, hc⟩ := exists_of_isOk hok
  obtain ⟨_, _, hiff, _⟩ := overlay_of_compile hc
  have hrequired : .overlay ∈ clip.requiredCapabilities := by decide +kernel
  exact ⟨c, hc, hiff.2 hrequired, hrequired⟩

/-- A film of one second with a picture above it that begins a second after its end. -/
def lateLayer : Plan where
  id := "late"
  projectId := none
  defaultUrl := some "a.mp4"
  sources := []
  format := OutputFormat.ofSize 640 360
  timeline :=
    [⟨"s1", none, none, none, 0, 1000, none, 0, 1000, 1000, 1, "video", 0, [], none⟩,
     ⟨"s2", none, none, some "b.mp4", 0, 500, none, 2000, 2500, 500, 1, "video", 1, [], none⟩]
  audioTracks := []
  textOverlays := []
  summary := none

/-- The late picture is composited, but no overlays are required for it: an engine that has none
is selected. -/
theorem lateLayer_composited_not_required :
    lateLayer.check.isOk = true ∧
    (∃ c, lateLayer.compile .serverFfmpeg "late.mp4" = .ok c ∧
      ∃ n ∈ readGraph c.graph, n.runs "overlay") ∧
    .overlay ∉ lateLayer.requiredCapabilities ∧
    (lateLayer.route [.webcodecs, .serverFfmpeg]).selected = .webcodecs ∧
    Engine.webcodecs.supports .overlay = false := by
  have hok : (lateLayer.compile .serverFfmpeg "late.mp4").isOk = true := by decide +kernel
  obtain ⟨c, hc⟩ := exists_of_isOk hok
  obtain ⟨g, s, _, _, _, _, _, hread⟩ := read_of_compile hc
  refine ⟨by decide +kernel, ⟨c, hc, ?_⟩, by decide +kernel, by decide +kernel, rfl⟩
  rw [hread, s.composites_iff]
  decide

end Plan

end RenderGateway
