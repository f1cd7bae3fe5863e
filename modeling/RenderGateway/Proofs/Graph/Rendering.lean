import RenderGateway.Proofs.Command.Compilation
import RenderGateway.Proofs.Graph.Coverage
import RenderGateway.Proofs.Graph.Windows
import RenderGateway.Proofs.Plan.Localization

/-!
# What a compiled graph renders

Every segment and every track of a plan is read from its file by one part of the graph, every
segment above the base is laid on by one part, and every text is drawn by one. `Rendered` says in
which order, and in which windows of time, in the text of the graph.
-/

namespace RenderGateway

namespace Graph

namespace Filterchain

/-- Whether a part lays a picture over another or draws a text. -/
def paints (n : Filterchain) : Bool := n.runs "overlay" || n.runs "drawtext"

/-- Whether a part takes a stream from a file. -/
def opensFile (n : Filterchain) : Bool := n.inputs.any fun l => (fileOf? l).isSome

/-- The filters of a name in a part. -/
def named (name : String) (n : Filterchain) : List String :=
  n.filters.filter fun f => nameOf f = name

end Filterchain

/-- The place of an asset among the inputs. -/
def placeOf (inputs : List String) (asset : Option String) : Nat := inputs.idxOf (asset.getD "")

/-- The part that takes the picture of a segment from its file. -/
def segmentPart (p : Plan) (inputs : List String) (i : Nat) (a : Segment) : Filterchain where
  inputs := [toString (placeOf inputs (p.segmentAsset a)) ++ ":v"]
  filters := (a.chain p.format).map Filter.text
  outputs := ["v" ++ toString i]

/-- The part that takes the sound of a track from its file. -/
def trackPart (p : Plan) (inputs : List String) (j : Nat) (t : AudioTrack) : Filterchain where
  inputs := [toString (placeOf inputs (p.audioAsset t)) ++ ":a"]
  filters := t.chain.map Filter.text
  outputs := ["a" ++ toString j]

/-- The label of the picture to which a step is applied. -/
def stepName (first name : String) : Nat → String
  | 0 => first
  | k + 1 => name ++ toString k

/-- The text of a trim. -/
def trimText (name : String) (start stop : Int) : String :=
  optionText name [("start", seconds start), ("end", seconds stop)]

/-- The text of a filter that lays a picture over another within a window. -/
def overlayText (start stop : Int) : String :=
  "overlay=eof_action=pass:enable='" ++ windowText start stop ++ "'"

/-- Items with their places in the order of a key, those of one key in the order of their places. -/
def InOrder {α β : Type} [LT β] (key : α → β) (items : List (α × Nat)) : Prop :=
  items.Pairwise fun a b => key a.1 < key b.1 ∨ key a.1 = key b.1 ∧ a.2 < b.2

/-- What the text of a graph makes of the segments, tracks and texts of its plan. The picture begins
with `bottom`, the layers are laid over it and the texts drawn over these. -/
structure Rendered (p : Plan) (inputs : List String) (picture : String) (chains : List Filterchain)
    (bottom : String) (layers : List (Segment × Nat)) (texts : List (TextOverlay × Nat)) :
    Prop where
  inputs_nodup : inputs.Nodup
  segments_resolved : ∀ a ∈ p.timeline, ∃ asset, p.segmentAsset a = some asset ∧
    inputs[placeOf inputs (some asset)]? = some asset
  tracks_resolved : ∀ t ∈ p.audioTracks, ∃ asset, p.audioAsset t = some asset ∧
    inputs[placeOf inputs (some asset)]? = some asset
  opens_eq : chains.filter Filterchain.opensFile =
    p.timeline.mapIdx (segmentPart p inputs) ++ p.audioTracks.mapIdx (trackPart p inputs)
  segments_trimmed : ∀ i, ∀ a ∈ p.timeline, (segmentPart p inputs i a).named "trim" =
    [trimText "trim" a.trimStart.toInt a.trimEnd.toInt]
  segments_cut : ∀ a ∈ p.timeline, Writable a.trimStart.toInt → Writable a.trimEnd.toInt →
    cut? (trimText "trim" a.trimStart.toInt a.trimEnd.toInt) =
      some ((a.trimStart.toInt : ℚ) / 1000, (a.trimEnd.toInt : ℚ) / 1000)
  tracks_trimmed : ∀ j, ∀ t ∈ p.audioTracks, (trackPart p inputs j t).named "atrim" =
    [trimText "atrim" t.trimStart.toInt t.trimEnd.toInt]
  tracks_cut : ∀ t ∈ p.audioTracks, Writable t.trimStart.toInt → Writable t.trimEnd.toInt →
    cut? (trimText "atrim" t.trimStart.toInt t.trimEnd.toInt) =
      some ((t.trimStart.toInt : ℚ) / 1000, (t.trimEnd.toInt : ℚ) / 1000)
  bottom_eq : bottom = "vbase" ∨ baseNames p = [bottom]
  layers_perm : layers.Perm (p.timeline.zipIdx.filter fun a => !a.1.isBase)
  layers_ordered : InOrder (fun a => a.layer.toNat) layers
  texts_perm : texts.Perm p.textOverlays.zipIdx
  texts_ordered : InOrder (fun o => o.timelineStart.toInt) texts
  paints_eq : chains.filter Filterchain.paints =
    (layers.mapIdx fun k a =>
      ⟨[stepName bottom "ov" k, "v" ++ toString a.2],
        [overlayText a.1.timelineStart.toInt a.1.timelineEnd.toInt], ["ov" ++ toString k]⟩) ++
    texts.mapIdx fun k o =>
      ⟨[stepName (stepName bottom "ov" layers.length) "txt" k], [o.1.drawText],
        ["txt" ++ toString k]⟩
  picture_eq : picture = stepName (stepName bottom "ov" layers.length) "txt" texts.length
  layers_enabled : ∀ a ∈ layers, Enabled a.1.timelineStart.toInt a.1.timelineEnd.toInt
    (overlayText a.1.timelineStart.toInt a.1.timelineEnd.toInt)
  texts_enabled : ∀ o ∈ texts, Enabled o.1.timelineStart.toInt o.1.timelineEnd.toInt o.1.drawText
  enabled_act : ∀ n ∈ chains, ∀ f ∈ n.filters, ∀ start stop, Enabled start stop f →
    Writable start → Writable stop → ActsWithin start stop f

/-! ### Orders -/

section Orders

variable {α β : Type}

/-- Sorting by a key leaves the items of one key in the order in which they were. -/
theorem pairwise_mergeSort_stable [LinearOrder β] (key : α → β) {le : α → α → Bool}
    (hle : ∀ a b, le a b = true ↔ key a ≤ key b) {R : α → α → Prop} {items : List α}
    (h : items.Pairwise R) :
    (items.mergeSort le).Pairwise fun a b => key a < key b ∨ key a = key b ∧ R a b := by
  have htrans : ∀ a b c, le a b = true → le b c = true → le a c = true := by
    simp only [hle]
    exact fun a b c => le_trans
  have htotal : ∀ a b, (le a b || le b a) = true := by
    simp only [Bool.or_eq_true, hle]
    exact fun a b => le_total _ _
  have hsorted := List.pairwise_mergeSort (List.zipIdxLE_trans htrans) (List.zipIdxLE_total htotal)
    items.zipIdx
  have hperm := List.mergeSort_perm items.zipIdx (List.zipIdxLE le)
  have hplaces : (items.zipIdx.mergeSort (List.zipIdxLE le)).Pairwise fun a b => a.2 ≠ b.2 := by
    refine List.pairwise_map.1 ((hperm.map Prod.snd).nodup_iff.2 ?_)
    rw [List.zipIdx_map_snd]
    exact List.nodup_range'
  -- sorted with their places, the items of one key stand in the order of these
  rw [← List.mergeSort_zipIdx, List.pairwise_map]
  refine (hsorted.and hplaces).imp_of_mem ?_
  rintro ⟨a, i⟩ ⟨b, j⟩ ha hb ⟨hplace, hne⟩
  obtain ⟨hi, rfl⟩ := List.getElem?_eq_some_iff.1
    (List.mk_mem_zipIdx_iff_getElem?.1 (hperm.mem_iff.1 ha))
  obtain ⟨hj, rfl⟩ := List.getElem?_eq_some_iff.1
    (List.mk_mem_zipIdx_iff_getElem?.1 (hperm.mem_iff.1 hb))
  simp only [List.zipIdxLE, hle] at hplace
  split at hplace
  · next hab =>
    split at hplace
    · next hba =>
      have hij : i < j := lt_of_le_of_ne (of_decide_eq_true hplace) hne
      exact .inr ⟨le_antisymm hab hba, List.pairwise_iff_getElem.1 h i j hi hj hij⟩
    · next hba => exact .inl (not_le.1 hba)
  · cases hplace

theorem pairwise_zipIdx (items : List α) : items.zipIdx.Pairwise fun a b => a.2 < b.2 := by
  refine List.pairwise_map.1 ?_
  rw [List.zipIdx_map_snd]
  exact List.pairwise_lt_range'

end Orders

/-- The texts in the order in which they are drawn, with their places in the plan. -/
def placedTexts (p : Plan) : List (TextOverlay × Nat) :=
  p.textOverlays.zipIdx.mergeSort fun a b => a.1.timelineStart.toInt ≤ b.1.timelineStart.toInt

theorem inOrder_placedTexts (p : Plan) :
    InOrder (fun o => o.timelineStart.toInt) (placedTexts p) :=
  pairwise_mergeSort_stable (fun a : TextOverlay × Nat => a.1.timelineStart.toInt)
    (fun _ _ => decide_eq_true_iff) (pairwise_zipIdx p.textOverlays)

theorem map_fst_placedTexts (p : Plan) : (placedTexts p).map Prod.fst = orderedTexts p := by
  have hfst := List.zipIdx_map_fst 0 p.textOverlays
  conv_rhs => rw [orderedTexts, ← hfst]
  exact List.map_mergeSort fun _ _ _ _ => rfl

theorem inOrder_upperSegments (p : Plan) :
    InOrder (fun a => a.layer.toNat) (upperSegments p) :=
  pairwise_mergeSort_stable (fun a : Segment × Nat => a.1.layer.toNat)
    (fun _ _ => decide_eq_true_iff.trans UInt32.le_iff_toNat_le)
    ((pairwise_zipIdx p.timeline).filter _)

/-! ### Parts -/

theorem map_mapIdx {α β γ : Type} (f : β → γ) (g : Nat → α → β) (items : List α) :
    (items.mapIdx g).map f = items.mapIdx fun i a => f (g i a) := by
  apply List.ext_getElem?
  intro i
  simp only [List.getElem?_map, List.getElem?_mapIdx, Option.map_map, Function.comp_def]

theorem segmentPart_eq {p : Plan} {inputs : List String} {i : Nat} {a : Segment} :
    segmentPart p inputs i a =
      (segmentNode p.format a i (placeOf inputs (p.segmentAsset a))).read := rfl

theorem trackPart_eq {p : Plan} {inputs : List String} {j : Nat} {t : AudioTrack} :
    trackPart p inputs j t = (trackNode t j (placeOf inputs (p.audioAsset t))).read := rfl

/-- A filter at the head of a chain that has none other of its name. -/
theorem named_of_head {name : String} {n : Node} {f : Filter} {rest : List Filter}
    (hchain : n.chain = f :: rest) (hf : f.name = name) (h : name ∉ rest.map Filter.name) :
    n.read.named name = [f.text] := by
  have hrest : (rest.map Filter.text).filter (fun other => nameOf other = name) = [] := by
    simp only [List.filter_eq_nil_iff, List.forall_mem_map, Filter.nameOf_text, decide_eq_true_eq]
    exact fun other hother hname => h (hname ▸ List.mem_map_of_mem hother)
  rw [Filterchain.named, Node.read, hchain, List.map_cons,
    List.filter_cons_of_pos (by simp [Filter.nameOf_text, hf]), hrest]

/-- The only trim of a segment is the one of its own window. -/
theorem named_trim (p : Plan) (inputs : List String) (i : Nat) (a : Segment) :
    (segmentPart p inputs i a).named "trim" =
      [trimText "trim" a.trimStart.toInt a.trimEnd.toInt] := by
  have heffects : "trim" ∉ a.filters.map VideoFilter.filterName :=
    not_mem_filterNames (by decide) a.filters
  have hnot : "trim" ∉ (a.chain p.format).tail.map Filter.name := by
    rw [List.map_tail, names_segment]
    simp [heffects]
  have hchain : (segmentNode p.format a i (placeOf inputs (p.segmentAsset a))).chain =
      .trim a.trimStart.toInt a.trimEnd.toInt :: (a.chain p.format).tail := rfl
  have hname : (Filter.trim a.trimStart.toInt a.trimEnd.toInt).name = "trim" := rfl
  rw [segmentPart_eq, trimText, ← text_trim, named_of_head hchain hname hnot]

/-- The only trim of a track is the one of its own window. -/
theorem named_audioTrim (p : Plan) (inputs : List String) (j : Nat) (t : AudioTrack) :
    (trackPart p inputs j t).named "atrim" =
      [trimText "atrim" t.trimStart.toInt t.trimEnd.toInt] := by
  have hnot : "atrim" ∉ t.chain.tail.map Filter.name := by
    rw [List.map_tail, names_track]
    simp
  have hchain : (trackNode t j (placeOf inputs (p.audioAsset t))).chain =
      .audioTrim t.trimStart.toInt t.trimEnd.toInt :: t.chain.tail := rfl
  have hname : (Filter.audioTrim t.trimStart.toInt t.trimEnd.toInt).name = "atrim" := rfl
  rw [trackPart_eq, trimText, ← text_audioTrim, named_of_head hchain hname hnot]

theorem paints_read_eq_false {n : Node} {names : List String}
    (hsub : n.chain.map Filter.name ⊆ names) (h : "overlay" ∉ names ∧ "drawtext" ∉ names) :
    n.read.paints = false := by
  rw [Filterchain.paints, runs_read_eq_false hsub h.1, runs_read_eq_false hsub h.2, Bool.or_false]

theorem opensFile_read {n : Node} : n.read.opensFile = n.pads.any fun pad => pad.file?.isSome := by
  have hname (pad : Pad) : (fileOf? pad.name).isSome = pad.file?.isSome := by
    rw [fileOf?_name]
    cases pad <;> rfl
  simp only [Filterchain.opensFile, Node.read, List.any_map, Function.comp_def, hname]

theorem text_stepInput (step : Nat → Label) {name : String}
    (h : ∀ k, (step k).text = name ++ toString k) (first : Label) (k : Nat) :
    (stepInput first step k).text = stepName first.text name k := by
  cases k with
  | zero => rfl
  | succ k => exact h k

theorem text_enableOption (start stop : Int) : (enableOption start stop).text =
    "enable" ++ "=" ++ ("'" ++ windowText start stop ++ "'") := rfl

theorem text_overlay (start stop : Int) :
    (Filter.overlay start stop).text = overlayText start stop := by
  have hfront : "overlay=eof_action=pass:enable='" =
      "overlay=eof_action=pass:" ++ ("enable" ++ "=" ++ "'") := by decide +kernel
  delta Filter.text
  dsimp only
  unfold overlayText
  rw [text_enableOption, hfront]
  generalize windowText start stop = window
  simp only [String.append_assoc]

theorem read_compositeNode (first : Label) (k : Nat) (u : Segment × Nat) :
    (compositeNode first k u).read =
      ⟨[stepName first.text "ov" k, "v" ++ toString u.2],
        [overlayText u.1.timelineStart.toInt u.1.timelineEnd.toInt], ["ov" ++ toString k]⟩ := by
  rw [← text_overlay, ← text_stepInput .composite (fun _ => rfl) first k]
  rfl

theorem read_captionNode (first : Label) (k : Nat) (o : TextOverlay) :
    (captionNode first k o).read =
      ⟨[stepName first.text "txt" k], [o.drawText], ["txt" ++ toString k]⟩ := by
  rw [← text_stepInput .caption (fun _ => rfl) first k]
  rfl

/-! ### Sections -/

/-- The nodes of items that read one stream each, by the places of their assets among inputs that
are all different. -/
theorem streamNodes_eq_mapIdx {α : Type} {asset? : α → Option String} {missing : α → CompileError}
    {node : α → Nat → Nat → Node} {all : List String} (hall : all.Nodup)
    {inputs final : List String} {index : Nat} {items : List α} {nodes : List Node}
    (h : streamNodes asset? missing node inputs index items = .ok (final, nodes))
    (hfinal : final <+: all) :
    nodes = items.mapIdx (fun i a => node a (index + i) (all.idxOf ((asset? a).getD ""))) ∧
      ∀ a ∈ items, ∃ asset, asset? a = some asset ∧ all[all.idxOf asset]? = some asset := by
  induction items generalizing inputs index nodes with
  | nil =>
    cases h
    exact ⟨rfl, nofun⟩
  | cons a rest ih =>
    obtain ⟨asset, tail, ha, hr, rfl⟩ := streamNodes_cons_ok h
    obtain ⟨htail, hrest⟩ := ih hr
    have hopened : all[(withInput inputs asset).2]? = some asset := by
      obtain ⟨added, rfl⟩ := (prefix_of_streamNodes hr).trans hfinal
      have hk := withInput_getElem? inputs asset
      rw [List.getElem?_append_left (List.getElem?_eq_some_iff.1 hk).1, hk]
    have hplace : all.idxOf asset = (withInput inputs asset).2 := by
      obtain ⟨hlt, hasset⟩ := List.getElem?_eq_some_iff.1 hopened
      conv_lhs => rw [← hasset]
      exact hall.idxOf_getElem _ hlt
    constructor
    · rw [List.mapIdx_cons, htail, ha, Option.getD_some, hplace]
      simp only [Nat.add_assoc, Nat.add_comm 1, Nat.add_zero]
    · rw [List.forall_mem_cons]
      exact ⟨⟨asset, ha, hplace ▸ hopened⟩, hrest⟩

namespace Sections

variable {p : Plan} {g : Graph}

theorem inputs_nodup (s : Sections p g) : g.inputs.Nodup := s.inputs_eq ▸ p.nodup_assetUrls

theorem segments_eq_mapIdx (s : Sections p g) :
    s.segments = p.timeline.mapIdx (fun i a =>
      segmentNode p.format a i (placeOf g.inputs (p.segmentAsset a))) ∧
      ∀ a ∈ p.timeline, ∃ asset, p.segmentAsset a = some asset ∧
        g.inputs[placeOf g.inputs (some asset)]? = some asset := by
  have h := streamNodes_eq_mapIdx s.inputs_nodup s.segments_eq (prefix_of_streamNodes s.tracks_eq)
  simpa only [Nat.zero_add, placeOf, Option.getD_some] using h

theorem tracks_eq_mapIdx (s : Sections p g) :
    s.tracks = p.audioTracks.mapIdx (fun j t =>
      trackNode t j (placeOf g.inputs (p.audioAsset t))) ∧
      ∀ t ∈ p.audioTracks, ∃ asset, p.audioAsset t = some asset ∧
        g.inputs[placeOf g.inputs (some asset)]? = some asset := by
  have h := streamNodes_eq_mapIdx s.inputs_nodup s.tracks_eq (List.prefix_refl _)
  simpa only [Nat.zero_add, placeOf, Option.getD_some] using h

theorem captions_eq (s : Sections p g) : s.captions =
    (placedTexts p).mapIdx fun k o => captionNode s.composed k o.1 := by
  rw [captions, ← map_fst_placedTexts]
  apply List.ext_getElem?
  intro k
  simp only [List.getElem?_mapIdx, List.getElem?_map, Option.map_map]
  rfl

/-- The parts that paint are the layers and then the texts. -/
theorem filter_paints (s : Sections p g) :
    (s.nodes.map Node.read).filter Filterchain.paints =
      (s.composites ++ s.captions).map Node.read := by
  have hsegments := s.filter_segments (fun n => n.read.paints) fun a _ _ =>
    paints_read_eq_false (names_segment_subset a p.format) (by decide)
  have hjoin : s.join.filter (fun n => n.read.paints) = [] :=
    s.filter_join _ (paints_read_eq_false (List.Subset.refl ["concat"]) (by decide))
  have hcomposites := s.filter_composites (b := true) (fun n => n.read.paints) fun _ _ _ =>
    Bool.or_eq_true_iff.2 (.inl (runs_read_iff.2 (List.mem_singleton.2 rfl)))
  have hcaptions := s.filter_captions (b := true) (fun n => n.read.paints) fun _ _ _ =>
    Bool.or_eq_true_iff.2 (.inr (runs_read_iff.2 (List.mem_singleton.2 rfl)))
  have htracks := s.filter_tracks (fun n => n.read.paints) fun t _ _ =>
    paints_read_eq_false (names_track_subset t) (by decide)
  have hsound : s.sound.read.paints = false := by
    refine paints_read_eq_false (List.Subset.refl _) ?_
    rw [sound_names]
    split <;> decide
  rw [List.filter_map]
  refine congrArg (List.map Node.read) ?_
  change s.nodes.filter (fun n => n.read.paints) = _
  simp [nodes, hsegments, hjoin, hcomposites, hcaptions, htracks, hsound]

/-- The parts that take streams from files are the segments and then the tracks. -/
theorem filter_opensFile (s : Sections p g) :
    (s.nodes.map Node.read).filter Filterchain.opensFile =
      (s.segments ++ s.tracks).map Node.read := by
  have hsegments := s.filter_segments (fun n => n.read.opensFile) fun _ _ _ => opensFile_read
  have hjoin : s.join.filter (fun n => n.read.opensFile) = [] :=
    s.filter_join _ (by simp [opensFile_read, Pad.file?])
  have hcomposites := s.filter_composites (fun n => n.read.opensFile) fun _ _ _ => opensFile_read
  have hcaptions := s.filter_captions (fun n => n.read.opensFile) fun _ _ _ => opensFile_read
  have htracks := s.filter_tracks (fun n => n.read.opensFile) fun _ _ _ => opensFile_read
  have hsound : s.sound.read.opensFile = false := by
    rw [opensFile_read]
    unfold sound soundNode
    split <;> simp [Pad.file?]
  rw [List.filter_map]
  refine congrArg (List.map Node.read) ?_
  change s.nodes.filter (fun n => n.read.opensFile) = _
  simp [nodes, hsegments, hjoin, hcomposites, hcaptions, htracks, hsound]

theorem syntaxValid (s : Sections p g) {o : TextOverlay} (ho : o ∈ p.textOverlays) :
    o.SyntaxValid :=
  TextOverlay.syntaxIssues_eq_nil_iff.1
    (syntaxError?_eq_none_iff.1 s.syntax_eq o (mem_orderedTexts.2 ho))

theorem text_composed (s : Sections p g) :
    s.composed.text = stepName s.bottom.text "ov" (upperSegments p).length :=
  text_stepInput _ (fun _ => rfl) s.bottom _

theorem rendered (s : Sections p g) (hpicture : g.picture = s.picture) :
    Rendered p g.inputs g.picture.text (s.nodes.map Node.read) s.bottom.text (upperSegments p)
      (placedTexts p) where
  inputs_nodup := s.inputs_nodup
  segments_resolved := s.segments_eq_mapIdx.2
  tracks_resolved := s.tracks_eq_mapIdx.2
  opens_eq := by
    rw [filter_opensFile, s.segments_eq_mapIdx.1, s.tracks_eq_mapIdx.1, List.map_append,
      map_mapIdx, map_mapIdx]
    rfl
  segments_trimmed := fun i a _ => named_trim p g.inputs i a
  segments_cut := fun _ _ hstart hstop => cut?_ends (by decide) hstart hstop
  tracks_trimmed := fun j t _ => named_audioTrim p g.inputs j t
  tracks_cut := fun _ _ hstart hstop => cut?_ends (by decide) hstart hstop
  bottom_eq := by
    rcases joinBase_ok s.join_eq with ⟨hlabels, _⟩ | ⟨_, hbase, _⟩
    · right
      have hnames : (baseLabels p).map Label.text = [s.bottom.text] := by
        rw [hlabels, List.map_singleton]
      rwa [baseLabels, List.map_map] at hnames
    · left
      rw [hbase]
      rfl
  layers_perm := List.mergeSort_perm _ _
  layers_ordered := inOrder_upperSegments p
  texts_perm := List.mergeSort_perm _ _
  texts_ordered := inOrder_placedTexts p
  paints_eq := by
    rw [filter_paints, captions_eq, composites, List.map_append, map_mapIdx, map_mapIdx]
    simp only [read_compositeNode, read_captionNode, text_composed]
  picture_eq := by
    have hlength : (orderedTexts p).length = (placedTexts p).length := by
      rw [← map_fst_placedTexts, List.length_map]
    rw [hpicture, picture, text_stepInput _ (fun _ => rfl), text_composed, hlength]
  layers_enabled := fun a _ => text_overlay _ _ ▸ enabled_overlay _ _
  texts_enabled := by
    intro o ho
    have hmem : o.1 ∈ p.textOverlays :=
      List.fst_mem_of_mem_zipIdx ((List.mergeSort_perm _ _).mem_iff.1 ho)
    exact enabled_drawText (s.syntaxValid hmem)
  enabled_act := fun _ _ _ _ _ _ henabled hstart hstop => henabled.actsWithin hstart hstop

end Sections

end Graph

namespace Plan

open RenderGateway.Graph

end Plan

end RenderGateway
