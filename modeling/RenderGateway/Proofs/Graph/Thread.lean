import RenderGateway.Proofs.Graph.Flow
import RenderGateway.Proofs.Graph.Sections

/-!
# The thread of the picture

The sections of a compiled graph flow into each other: the segments open their
labels, the base ones are joined, the running picture goes through composites
and captions, and the tracks end in the sound. `Sections.flows_nodes` puts the
sections together, and `Sections.map_label_nodes` lists the labels.
-/

namespace RenderGateway

namespace Graph

/-- The labels of the graph of a plan, in the order of their nodes. -/
def planLabels (p : Plan) : List Label :=
  (List.range p.timeline.length).map .segment ++
  (if 2 ≤ p.baseSegments.length then [.base] else []) ++
  (List.range p.layerSegments.length).map .composite ++
  (List.range p.textOverlays.length).map .caption ++
  (List.range p.audioTracks.length).map .track ++ [.sound]

theorem planLabels_nodup (p : Plan) : (planLabels p).Nodup := by
  have hsegment : Function.Injective Label.segment := fun _ _ => Label.segment.inj
  have hcomposite : Function.Injective Label.composite := fun _ _ => Label.composite.inj
  have hcaption : Function.Injective Label.caption := fun _ _ => Label.caption.inj
  have htrack : Function.Injective Label.track := fun _ _ => Label.track.inj
  have hbase : (if 2 ≤ p.baseSegments.length then [Label.base] else []).Nodup := by
    split <;> simp
  simp only [planLabels, List.nodup_append, List.nodup_map_iff hsegment,
    List.nodup_map_iff hcomposite, List.nodup_map_iff hcaption, List.nodup_map_iff htrack,
    List.nodup_range, hbase, List.nodup_singleton, true_and]
  refine ⟨⟨⟨⟨?_, ?_⟩, ?_⟩, ?_⟩, ?_⟩ <;>
  · intro l hl m hm
    simp only [List.mem_append, List.mem_map, List.mem_ite_nil_right, List.mem_singleton] at hl hm
    grind

/-- The labels of the segments above the base, in the order in which they are laid on. -/
def upperLabels (p : Plan) : List Label := (upperSegments p).map fun upper => .segment upper.2

theorem map_fst_filter_zipIdx {α : Type} (keep : α → Bool) (items : List α) :
    (items.zipIdx.filter fun item => keep item.1).map Prod.fst = items.filter keep := by
  have h := List.filter_map (f := Prod.fst) (p := keep) (l := items.zipIdx)
  rw [List.zipIdx_map_fst] at h
  exact h.symm

theorem baseLabels_length (p : Plan) : (baseLabels p).length = p.baseSegments.length := by
  have h := congrArg List.length (map_fst_filter_zipIdx Segment.isBase p.timeline)
  rw [List.length_map] at h
  rw [baseLabels, List.length_map]
  exact h

theorem upperSegments_length (p : Plan) : (upperSegments p).length = p.layerSegments.length := by
  have h := congrArg List.length (map_fst_filter_zipIdx (fun s => !s.isBase) p.timeline)
  rw [List.length_map] at h
  rw [upperSegments, List.length_mergeSort]
  exact h

theorem orderedTexts_length (p : Plan) : (orderedTexts p).length = p.textOverlays.length :=
  List.length_mergeSort _

theorem compositeNode_reads (first : Label) (k : Nat) (upper : Segment × Nat) :
    (compositeNode first k upper).reads = stepInput first .composite k :: [.segment upper.2] := rfl

theorem captionNode_reads (first : Label) (k : Nat) (o : TextOverlay) :
    (captionNode first k o).reads = stepInput first .caption k :: [] := rfl

theorem segmentNode_label (f : OutputFormat) (s : Segment) (i k : Nat) :
    (segmentNode f s i k).label = .segment i := rfl

theorem trackNode_label (t : AudioTrack) (i k : Nat) : (trackNode t i k).label = .track i := rfl

theorem compositeNode_label (first : Label) (k : Nat) (upper : Segment × Nat) :
    (compositeNode first k upper).label = .composite k := rfl

theorem captionNode_label (first : Label) (k : Nat) (o : TextOverlay) :
    (captionNode first k o).label = .caption k := rfl

theorem map_label_mapIdx {α : Type} {node : Nat → α → Node} {step : Nat → Label}
    (hlabel : ∀ k a, (node k a).label = step k) (items : List α) :
    (items.mapIdx node).map Node.label = (List.range items.length).map step := by
  induction items using List.reverseRecOn with
  | nil => rfl
  | append_singleton items a ih =>
    rw [List.mapIdx_concat, List.map_append, ih, List.length_append, List.length_singleton,
      List.range_succ, List.map_append, List.map_singleton, List.map_singleton, hlabel]

theorem output_reads (labels : List Label) :
    (labels.map Pad.output).filterMap Pad.label? = labels := by
  rw [List.filterMap_map]
  exact List.filterMap_some

theorem soundNode_reads (tracks : Nat) (duration : Int) :
    (soundNode tracks duration).reads = (List.range tracks).map .track := by
  unfold soundNode Node.reads
  split
  · next h =>
    rw [h]
    rfl
  · have h := output_reads ((List.range tracks).map .track)
    rw [List.map_map] at h
    exact h

theorem soundNode_label (tracks : Nat) (duration : Int) :
    (soundNode tracks duration).label = .sound := by
  unfold soundNode
  split <;> rfl

/-- Every segment is either one of the base or laid on. -/
theorem coe_baseLabels_add (p : Plan) :
    (baseLabels p + upperLabels p : Multiset Label) =
      ((List.range p.timeline.length).map Label.segment : List Label) := by
  have hsplit :=
    List.filter_append_perm (fun item : Segment × Nat => item.1.isBase) p.timeline.zipIdx
  have hupper := List.mergeSort_perm (p.timeline.zipIdx.filter fun item => !item.1.isBase)
    fun a b => a.1.layer ≤ b.1.layer
  have hlabels := ((hupper.append_left _).trans hsplit).map fun item => Label.segment item.2
  rw [List.map_append] at hlabels
  rw [List.range_eq_range', ← List.zipIdx_map_snd 0, List.map_map, Multiset.coe_add,
    Multiset.coe_eq_coe]
  exact hlabels

namespace Sections

variable {p : Plan} {g : Graph}

theorem map_label_segments (s : Sections p g) :
    s.segments.map Node.label = (List.range p.timeline.length).map .segment := by
  rw [List.range_eq_range']
  exact map_label_of_streamNodes (segmentNode_label p.format) s.segments_eq

theorem map_label_tracks (s : Sections p g) :
    s.tracks.map Node.label = (List.range p.audioTracks.length).map .track := by
  rw [List.range_eq_range']
  exact map_label_of_streamNodes trackNode_label s.tracks_eq

theorem map_label_join (s : Sections p g) :
    s.join.map Node.label = if 2 ≤ p.baseSegments.length then [.base] else [] := by
  rw [← baseLabels_length]
  rcases joinBase_ok s.join_eq with ⟨hlabels, hjoin⟩ | ⟨htwo, _, hjoin⟩
  · simp [hlabels, hjoin]
  · simp [htwo, hjoin]

theorem map_label_composites (s : Sections p g) :
    s.composites.map Node.label = (List.range p.layerSegments.length).map .composite := by
  rw [← upperSegments_length]
  exact map_label_mapIdx (compositeNode_label s.bottom) _

theorem map_label_captions (s : Sections p g) :
    s.captions.map Node.label = (List.range p.textOverlays.length).map .caption := by
  rw [← orderedTexts_length]
  exact map_label_mapIdx (captionNode_label s.composed) _

theorem map_label_nodes (s : Sections p g) : s.nodes.map Node.label = planLabels p := by
  simp only [nodes, List.map_append, map_label_segments, map_label_join, map_label_composites,
    map_label_captions, map_label_tracks, List.map_singleton, planLabels]
  rw [sound, soundNode_label]

theorem flows_segments (s : Sections p g) :
    Flows s.segments 0 (baseLabels p + upperLabels p) := by
  rw [coe_baseLabels_add, ← s.map_label_segments]
  apply Flows.sources
  intro n hn
  obtain ⟨i, a, k, asset, _, _, _, rfl⟩ := s.mem_segments hn
  rfl

theorem flows_join (s : Sections p g) : Flows s.join (baseLabels p) {s.bottom} := by
  rcases joinBase_ok s.join_eq with ⟨hlabels, hjoin⟩ | ⟨_, hbottom, hjoin⟩
  · rw [hlabels, hjoin]
    rfl
  · have h := Flows.single ⟨(baseLabels p).map .output, [.concat (baseLabels p).length], .base⟩
    rw [Node.reads, output_reads] at h
    rw [hjoin, hbottom]
    exact h

theorem flows_composites (s : Sections p g) :
    Flows s.composites ({s.bottom} + upperLabels p) {s.composed} := by
  have h := Flows.mapIdx (compositeNode_reads s.bottom) (compositeNode_label s.bottom)
    (upperSegments p)
  rw [← List.map_eq_flatMap, ← Multiset.singleton_add] at h
  exact h

theorem flows_captions (s : Sections p g) : Flows s.captions {s.composed} {s.picture} := by
  have h := Flows.mapIdx (captionNode_reads s.composed) (captionNode_label s.composed)
    (orderedTexts p)
  rw [List.flatMap_eq_nil_iff.2 fun _ _ => rfl] at h
  exact h

theorem flows_tracks (s : Sections p g) :
    Flows s.tracks 0 ((List.range p.audioTracks.length).map Label.track : List Label) := by
  rw [← s.map_label_tracks]
  apply Flows.sources
  intro n hn
  obtain ⟨i, t, k, asset, _, _, _, rfl⟩ := s.mem_tracks hn
  rfl

theorem flows_sound (s : Sections p g) :
    Flows [s.sound] ((List.range p.audioTracks.length).map Label.track : List Label)
      {Label.sound} := by
  have h := Flows.single s.sound
  rw [sound, soundNode_reads, soundNode_label] at h
  exact h

/-- The whole graph leaves the picture and the sound. -/
theorem flows_nodes (s : Sections p g) : Flows s.nodes 0 ({s.picture} + {Label.sound}) := by
  have hpicture : Flows (s.segments ++ s.join ++ s.composites ++ s.captions) 0 {s.picture} :=
    ((s.flows_segments.append (s.flows_join.frame _)).append s.flows_composites).append
      s.flows_captions
  have hsound := (s.flows_tracks.append s.flows_sound).frame {s.picture}
  rw [zero_add, add_comm] at hsound
  have h := hpicture.append hsound
  rw [← List.append_assoc] at h
  exact h

end Sections

end Graph

end RenderGateway
