import RenderGateway.Proofs.Graph.FilterText
import RenderGateway.Proofs.Graph.Thread

/-!
# Texts of a plan in its graph

The texts of a plan reach the graph inside quoted spans only. An encoder that
splits the text of the graph outside the spans finds the nodes of the graph,
and what it sees outside the spans is the same for all texts of an overlay.
-/

namespace RenderGateway

namespace TextOverlay

open RenderGateway.Graph

/-- An overlay without the texts that it draws and the expressions that it is drawn with. -/
def blank (o : TextOverlay) : TextOverlay :=
  { o with
    content := ""
    fontColor := ""
    fontFile := o.fontFile.map fun _ => ""
    x := none
    y := none
    background := o.background.map fun b => { b with color := "" } }

theorem outside_drawText (o : TextOverlay) :
    outside o.drawText = "drawtext=" ++ ":".intercalate (o.options.map FilterOption.bareText) := by
  have hname : Plain "drawtext=" := by decide
  have hbalanced : ∀ s ∈ o.options.map FilterOption.text, Balanced s := by
    intro s hs
    obtain ⟨option, hoption, rfl⟩ := List.mem_map.1 hs
    exact (o.contained_options option hoption).sealed.balanced
  have houtside : (o.options.map FilterOption.text).map outside =
      o.options.map FilterOption.bareText := by
    rw [List.map_map]
    exact List.map_congr_left fun option hoption =>
      (o.contained_options option hoption).outside_text
  unfold drawText
  rw [hname.toSealed.balanced.outside_append, outside_of_not_mem hname.quote_not_mem,
    outside_intercalate (by decide) hbalanced, houtside]

theorem bareText_quoted (key s : String) :
    FilterOption.bareText ⟨key, .quoted s⟩ = key ++ "=" ++ "" := rfl

theorem bareText_expression (key s : String) :
    FilterOption.bareText ⟨key, quotedExpression s⟩ = key ++ "=" ++ "" := rfl

theorem outside_drawText_blank (o : TextOverlay) :
    outside o.blank.drawText = outside o.drawText := by
  have hoptions : o.blank.options.map FilterOption.bareText =
      o.options.map FilterOption.bareText := by
    unfold options blank TextBackground.options
    cases o.fontFile <;> cases o.background <;>
      simp only [List.map_append, List.map_cons, Option.map, bareText_quoted,
        bareText_expression]
  rw [outside_drawText, outside_drawText, hoptions]

end TextOverlay

namespace Graph

theorem Label.plain_text (l : Label) : Plain l.text := by
  cases l with
  | segment i | composite i | caption i | track i =>
    exact Plain.append_iff.2 ⟨by decide, plain_nat i⟩
  | base => exact (by decide : Plain "vbase")
  | sound => exact (by decide : Plain "aout")

/-- A pad is plain text in brackets. -/
theorem Pad.exists_plain (pad : Pad) : ∃ s, Plain s ∧ pad.text = "[" ++ s ++ "]" := by
  cases pad with
  | video k =>
    refine ⟨toString k ++ ":v", Plain.append_iff.2 ⟨plain_nat k, by decide⟩, ?_⟩
    rw [text, String.append_assoc, String.append_assoc, String.append_assoc]
    rfl
  | audio k =>
    refine ⟨toString k ++ ":a", Plain.append_iff.2 ⟨plain_nat k, by decide⟩, ?_⟩
    rw [text, String.append_assoc, String.append_assoc, String.append_assoc]
    rfl
  | output l => exact ⟨l.text, l.plain_text, rfl⟩

theorem Pad.not_mem_text (pad : Pad) {c : Char} (h : c = '\'' ∨ c = ';') :
    c ∉ pad.text.toList := by
  obtain ⟨s, hs, htext⟩ := pad.exists_plain
  have hdelimiter : c ∈ '\'' :: delimiters := by rcases h with rfl | rfl <;> decide
  have hbrackets : c ≠ '[' ∧ c ≠ ']' := by rcases h with rfl | rfl <;> decide
  rw [htext, String.toList_append, String.toList_append, List.mem_append, List.mem_append, not_or,
    not_or]
  exact ⟨⟨by simpa using hbrackets.1, fun hmem => hs c hmem hdelimiter⟩,
    by simpa using hbrackets.2⟩

theorem not_mem_pads (pads : List Pad) {c : Char} (h : c = '\'' ∨ c = ';') :
    c ∉ (String.join (pads.map Pad.text)).toList := by
  intro hmem
  rw [String.toList_join, List.mem_flatMap] at hmem
  obtain ⟨s, hs, hc⟩ := hmem
  obtain ⟨pad, _, rfl⟩ := List.mem_map.1 hs
  exact pad.not_mem_text h hc

theorem sealed_chainText (chain : List Filter) : Sealed ['[', ']', ';'] (chainText chain) := by
  refine .intercalate (.of_not_mem (by decide) (by simp)) ?_
  intro s hs
  obtain ⟨f, _, rfl⟩ := List.mem_map.1 hs
  exact f.sealed_text.mono (by decide)

namespace Node

theorem balanced_pads (n : Node) : Balanced (String.join (n.pads.map Pad.text)) :=
  .of_not_mem (not_mem_pads n.pads (.inl rfl))

theorem balanced_text (n : Node) : Balanced n.text :=
  (n.balanced_pads.append (sealed_chainText n.chain).balanced).append
    (.of_not_mem ((Pad.output n.label).not_mem_text (.inl rfl)))

theorem outside_text (n : Node) : outside n.text =
    String.join (n.pads.map Pad.text) ++ outside (chainText n.chain) ++
      (Pad.output n.label).text := by
  rw [text, (n.balanced_pads.append (sealed_chainText n.chain).balanced).outside_append,
    n.balanced_pads.outside_append, outside_of_not_mem (not_mem_pads n.pads (.inl rfl)),
    outside_of_not_mem ((Pad.output n.label).not_mem_text (.inl rfl))]

/-- No node ends inside its text. -/
theorem semicolon_not_mem_outside (n : Node) : ';' ∉ (outside n.text).toList := by
  rw [outside_text, String.toList_append, String.toList_append, List.mem_append, List.mem_append,
    not_or, not_or]
  exact ⟨⟨not_mem_pads n.pads (.inr rfl),
      (sealed_chainText n.chain).outside_not_mem ';' (by decide)⟩,
    (Pad.output n.label).not_mem_text (.inr rfl)⟩

end Node

/-- Splitting the text of a graph outside the spans gives its nodes. -/
theorem splitOutside_text {g : Graph} (hne : g.nodes ≠ []) :
    splitOutside ';' g.text = g.nodes.map Node.text := by
  refine splitOutside_intercalate (by decide) (by simpa using hne) ?_
  intro s hs
  obtain ⟨n, _, rfl⟩ := List.mem_map.1 hs
  exact ⟨n.balanced_text, n.semicolon_not_mem_outside⟩

theorem outside_text (g : Graph) :
    outside g.text = ";".intercalate (g.nodes.map fun n => outside n.text) := by
  have hbalanced : ∀ s ∈ g.nodes.map Node.text, Balanced s := by
    intro s hs
    obtain ⟨n, _, rfl⟩ := List.mem_map.1 hs
    exact n.balanced_text
  rw [text, outside_intercalate (by decide) hbalanced, List.map_map]
  rfl

theorem outside_captionNode (first : Label) (k : Nat) (o : TextOverlay) :
    outside (captionNode first k o).text = outside (captionNode first k o.blank).text := by
  have hchain (o : TextOverlay) :
      chainText (captionNode first k o).chain = o.drawText := String.intercalate_singleton
  rw [Node.outside_text, Node.outside_text, hchain, hchain, o.outside_drawText_blank]
  rfl

theorem map_blank_orderedTexts (p : Plan) :
    (orderedTexts p).map TextOverlay.blank =
      (p.textOverlays.map TextOverlay.blank).mergeSort
        fun a b => a.timelineStart.toInt ≤ b.timelineStart.toInt :=
  List.map_mergeSort fun _ _ _ _ => rfl

/-- Outside the spans, the captions of two lists of texts that differ in the values of
their texts only are the same. -/
theorem outside_captions (first : Label) {texts others : List TextOverlay}
    (h : others.map TextOverlay.blank = texts.map TextOverlay.blank) :
    ((others.mapIdx (captionNode first)).map fun n => outside n.text) =
      (texts.mapIdx (captionNode first)).map fun n => outside n.text := by
  have hblank (l : List TextOverlay) :
      ((l.mapIdx (captionNode first)).map fun n => outside n.text) =
        (l.map TextOverlay.blank).mapIdx fun k o => outside (captionNode first k o).text := by
    apply List.ext_getElem?
    intro k
    simp only [List.getElem?_map, List.getElem?_mapIdx, Option.map_map]
    exact Option.map_congr fun o _ => outside_captionNode first k o
  rw [hblank, hblank, h]

theorem Arises.chain_ne_nil {p : Plan} {g : Graph} {n : Node} (h : Arises p g n) :
    n.chain ≠ [] := by
  cases h with
  | segment | track | join | composite | caption => exact List.cons_ne_nil _ _
  | sound =>
    unfold soundNode
    split <;> exact List.cons_ne_nil _ _

/-- Splitting a chain outside the spans gives its filters. -/
theorem splitOutside_chainText {chain : List Filter} (hne : chain ≠ []) :
    splitOutside ',' (chainText chain) = chain.map Filter.text := by
  refine splitOutside_intercalate (by decide) (by simpa using hne) ?_
  intro s hs
  obtain ⟨f, _, rfl⟩ := List.mem_map.1 hs
  exact ⟨f.sealed_text.balanced, f.sealed_text.outside_not_mem ',' (by decide)⟩

namespace Sections

/-- Plans that differ in the values of their texts only have graphs that are the same
outside the spans. -/
theorem outside_nodes {p : Plan} {g g' : Graph} {texts : List TextOverlay}
    (h : texts.map TextOverlay.blank = p.textOverlays.map TextOverlay.blank) (s : Sections p g)
    (s' : Sections { p with textOverlays := texts } g') :
    (s'.nodes.map fun n => outside n.text) = s.nodes.map fun n => outside n.text := by
  have hsegments := s'.segments_eq.symm.trans s.segments_eq
  simp only [Except.ok.injEq, Prod.mk.injEq] at hsegments
  have hjoin := s'.join_eq.symm.trans s.join_eq
  simp only [Except.ok.injEq, Prod.mk.injEq] at hjoin
  have htracks : trackNodes p s'.inputs 0 p.audioTracks = .ok (g'.inputs, s'.tracks) :=
    s'.tracks_eq
  rw [hsegments.1, s.tracks_eq] at htracks
  simp only [Except.ok.injEq, Prod.mk.injEq] at htracks
  have hcomposites : s'.composites = s.composites := by
    unfold composites
    rw [hjoin.1]
    rfl
  have hcomposed : s'.composed = s.composed := by
    unfold composed
    rw [hjoin.1]
    rfl
  have hcaptions : (s'.captions.map fun n => outside n.text) =
      s.captions.map fun n => outside n.text := by
    unfold captions
    rw [hcomposed]
    apply outside_captions
    rw [map_blank_orderedTexts, map_blank_orderedTexts, h]
  simp only [nodes, List.map_append, hsegments.2, hjoin.2, hcomposites, hcaptions, htracks.2]
  rfl

end Sections

end Graph

namespace Plan

open RenderGateway.Graph

/-- A compiled graph is split into its nodes and filters by an encoder that reads quoted
spans literally, and the values of the texts do not show outside the spans. -/
theorem quoted_of_compile {p : Plan} {engine : Engine} {output : String} {c : CompiledCommand}
    (h : p.compile engine output = .ok c) :
    ∃ g, Graph.ofPlan p = .ok g ∧ splitOutside ';' c.graph = g.nodes.map Node.text ∧
      g.nodes.map Node.label = planLabels p ∧ (∀ n ∈ g.nodes, Arises p g n) ∧
      (∀ n ∈ g.nodes, Balanced n.text ∧
        splitOutside ',' (chainText n.chain) = n.chain.map Filter.text ∧
        ∀ f ∈ n.chain, Sealed delimiters f.text) ∧
      ∀ texts engine' output' c',
        texts.map TextOverlay.blank = p.textOverlays.map TextOverlay.blank →
        { p with textOverlays := texts }.compile engine' output' = .ok c' →
        outside c'.graph = outside c.graph := by
  obtain ⟨g, hg, hgraph, _⟩ := compile_ok h
  obtain ⟨s, hnodes, _, _⟩ := ofPlan_ok hg
  have harises : ∀ n ∈ g.nodes, Arises p g n := fun n hn => s.arises (hnodes ▸ hn)
  refine ⟨g, hg, ?_, hnodes ▸ s.map_label_nodes, harises, ?_, ?_⟩
  · rw [hgraph]
    exact splitOutside_text (by simp [hnodes, Sections.nodes])
  · intro n hn
    exact ⟨n.balanced_text, splitOutside_chainText (harises n hn).chain_ne_nil,
      fun f _ => f.sealed_text⟩
  · intro texts engine' output' c' htexts h'
    obtain ⟨g', hg', hgraph', _⟩ := compile_ok h'
    obtain ⟨s', hnodes', _, _⟩ := ofPlan_ok hg'
    rw [hgraph, hgraph', outside_text, outside_text, hnodes, hnodes', s.outside_nodes htexts s']

/-- The text of the clip with values that would end a node or an option outside a span. -/
def hostileTexts : List TextOverlay :=
  [⟨"o1", "';[v];movie=x[y]", 0, 500, 24, "red@0.5", none, .bottom, some "w/2", none, none⟩]

theorem quoted_of_clip : ∃ c c', clip.compile .serverFfmpeg "clip.mp4" = .ok c ∧
    { clip with textOverlays := hostileTexts }.compile .serverFfmpeg "clip.mp4" = .ok c' ∧
    outside c'.graph = outside c.graph := by
  have hok : (clip.compile .serverFfmpeg "clip.mp4").isOk = true := by decide +kernel
  have hok' : ({ clip with textOverlays := hostileTexts }.compile .serverFfmpeg "clip.mp4").isOk =
      true := by decide +kernel
  obtain ⟨c, hc⟩ := exists_of_isOk hok
  obtain ⟨c', hc'⟩ := exists_of_isOk hok'
  obtain ⟨g, _, _, _, _, _, hsame⟩ := quoted_of_compile hc
  exact ⟨c, c', hc, hc', hsame hostileTexts _ _ c' (by decide) hc'⟩

end Plan

end RenderGateway
