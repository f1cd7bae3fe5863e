import RenderGateway.Proofs.Graph.Rendering

/-!
# Streams of files as they are read

A node that reads a file begins with the number of the file and the kind of the stream between
brackets, and its own label ends it. A node that reads other nodes begins with a label, which is no
number. So the text of a graph tells which streams are read and what becomes of each: one for every
segment and then one for every track, by the places of their assets among the inputs.
-/

namespace RenderGateway

namespace Graph

open Numeral

/-- What stands in the last brackets of a text that ends with them. -/
def lastLabel (cs : List Char) : String :=
  String.ofList (cs.reverse.takeWhile (· ≠ '[')).reverse.dropLast

/-- The file and the kind of stream that the text of a node begins with, and the label that ends
it. -/
def readStream? (node : String) : Option (Nat × Char × String) :=
  match node.toList with
  | '[' :: cs =>
    match cs.span Char.isDigit with
    | (d :: ds, ':' :: kind :: ']' :: rest) => some (value (d :: ds), kind, lastLabel rest)
    | _ => none
  | _ => none

/-- The streams that the nodes of a graph begin with, in the order of the nodes. -/
def readStreams (graph : String) : List (Nat × Char × String) :=
  (splitOutside ';' graph).filterMap readStream?

theorem lastLabel_append (cs : List Char) (l : Label) :
    lastLabel (cs ++ '[' :: (l.text.toList ++ [']'])) = l.text := by
  have hlabel : ∀ c ∈ ']' :: l.text.toList.reverse, decide (c ≠ '[') = true := by
    intro c hc
    rw [List.mem_cons, List.mem_reverse] at hc
    rcases hc with rfl | hc
    · decide
    · refine decide_eq_true (ne_of_mem_of_not_mem hc fun hbracket => ?_)
      exact l.plain_text '[' hbracket (by decide)
  have hreverse : (cs ++ '[' :: (l.text.toList ++ [']'])).reverse =
      (']' :: l.text.toList.reverse) ++ '[' :: cs.reverse := by simp
  rw [lastLabel, hreverse, List.takeWhile_append_of_pos hlabel]
  simp

/-- A text that begins with something other than a bracket names no file. -/
theorem readStream?_of_head? {node : String} (h : node.toList.head? ≠ some '[') :
    readStream? node = none := by
  unfold readStream?
  split
  · next heq => exact absurd (congrArg List.head? heq) h
  · rfl

/-- A bracket with no digit behind it opens no file. -/
theorem readStream?_label {node : String} {c : Char} {cs : List Char}
    (h : node.toList = '[' :: c :: cs) (hc : c.isDigit = false) : readStream? node = none := by
  have hspan : (c :: cs).span Char.isDigit = ([], c :: cs) :=
    @span_of_isDigit [] (c :: cs) nofun (by simpa using hc)
  simp only [readStream?, h, hspan]

theorem readStream?_file {node : String} {k : Nat} {kind : Char} {rest : List Char}
    (h : node.toList = '[' :: (digits k ++ ':' :: kind :: ']' :: rest)) :
    readStream? node = some (k, kind, lastLabel rest) := by
  have hspan : (digits k ++ ':' :: kind :: ']' :: rest).span Char.isDigit =
      (digits k, ':' :: kind :: ']' :: rest) := span_digits k (by rintro c ⟨⟩; rfl)
  obtain ⟨d, ds, hd⟩ := List.exists_cons_of_ne_nil (digits_ne_nil k)
  have hvalue : value (d :: ds) = k := hd ▸ value_digits k
  rw [hd] at hspan h
  simp only [readStream?, h, hspan, hvalue]

/-- The text of a node, with what its first pad has between the brackets. -/
theorem toList_text_of_pads {n : Node} {pad : Pad} {pads : List Pad} (h : n.pads = pad :: pads) :
    ∃ cs, n.text.toList =
      '[' :: (pad.body ++ ']' :: (cs ++ '[' :: (n.label.text.toList ++ [']']))) := by
  refine ⟨(String.join (pads.map Pad.text)).toList ++ (chainText n.chain).toList, ?_⟩
  rw [Node.text, h, List.map_cons, String.toList_append, String.toList_append, Pad.toList_text,
    String.toList_join, List.flatMap_cons, Pad.toList_text, String.toList_join, Pad.body]
  simp only [List.append_assoc, List.cons_append, List.nil_append]

section

variable {n : Node} {pads : List Pad}

theorem readStream?_video {k : Nat} (h : n.pads = .video k :: pads) :
    readStream? n.text = some (k, 'v', n.label.text) := by
  obtain ⟨cs, htext⟩ := toList_text_of_pads h
  rw [Pad.body, List.append_assoc] at htext
  rw [readStream?_file htext, lastLabel_append]

theorem readStream?_audio {k : Nat} (h : n.pads = .audio k :: pads) :
    readStream? n.text = some (k, 'a', n.label.text) := by
  obtain ⟨cs, htext⟩ := toList_text_of_pads h
  rw [Pad.body, List.append_assoc] at htext
  rw [readStream?_file htext, lastLabel_append]

theorem readStream?_output {l : Label} (h : n.pads = .output l :: pads) :
    readStream? n.text = none := by
  obtain ⟨cs, htext⟩ := toList_text_of_pads h
  obtain ⟨c, ds, hl, hc⟩ := l.exists_toList_text
  rw [Pad.body, hl] at htext
  exact readStream?_label htext hc

end

theorem filterMap_eq_nil_of_output {nodes : List Node}
    (h : ∀ n ∈ nodes, ∃ l pads, n.pads = .output l :: pads) :
    (nodes.map Node.text).filterMap readStream? = [] := by
  rw [List.filterMap_map, List.filterMap_eq_nil_iff]
  intro n hn
  obtain ⟨l, pads, hpads⟩ := h n hn
  exact readStream?_output hpads

/-- Items whose nodes are read give one stream each, in their order. -/
theorem filterMap_mapIdx_of_read {α : Type} (items : List α) {node : Nat → α → Node}
    {read : Nat → α → Nat × Char × String}
    (h : ∀ i a, readStream? (node i a).text = some (read i a)) :
    ((items.mapIdx node).map Node.text).filterMap readStream? = items.mapIdx read := by
  induction items generalizing node read with
  | nil => rfl
  | cons a items ih =>
    rw [List.mapIdx_cons, List.map_cons, List.filterMap_cons_some (h 0 a), List.mapIdx_cons,
      ih fun i => h (i + 1)]

namespace Sections

variable {p : Plan} {g : Graph}

theorem readStream?_sound (s : Sections p g) : readStream? s.sound.text = none := by
  unfold sound soundNode
  split
  · have htext : Node.text ⟨[], [.silence, .audioEnd p.outputDuration], .sound⟩ =
        "anullsrc=channel_layout=stereo:sample_rate=48000" ++
          ("," ++ (Filter.audioEnd p.outputDuration).text ++ "[aout]") := by
      have hchain : chainText [.silence, .audioEnd p.outputDuration] =
          Filter.silence.text ++ "," ++ (Filter.audioEnd p.outputDuration).text := by
        simp [chainText, String.append_assoc]
      rw [Node.text, hchain, List.map_nil, String.join_nil, String.empty_append,
        String.append_assoc, String.append_assoc, String.append_assoc]
      rfl
    have hsource : "anullsrc=channel_layout=stereo:sample_rate=48000".toList =
        'a' :: "nullsrc=channel_layout=stereo:sample_rate=48000".toList := by decide
    refine readStream?_of_head? ?_
    rw [htext, String.toList_append, hsource, List.cons_append, List.head?_cons]
    decide
  · next h =>
    obtain ⟨k, hk⟩ := Nat.exists_eq_succ_of_ne_zero h
    rw [hk, List.range_succ_eq_map]
    exact readStream?_output rfl

/-- The streams that a compiled graph reads: the picture of every segment and then the sound of
every track. -/
theorem readStreams_text (s : Sections p g) (hnodes : g.nodes = s.nodes) :
    readStreams g.text =
      (p.timeline.mapIdx fun i a =>
        (placeOf g.inputs (p.segmentAsset a), 'v', (Label.segment i).text)) ++
      p.audioTracks.mapIdx fun j t =>
        (placeOf g.inputs (p.audioAsset t), 'a', (Label.track j).text) := by
  have hsegments : (s.segments.map Node.text).filterMap readStream? = p.timeline.mapIdx fun i a =>
      (placeOf g.inputs (p.segmentAsset a), 'v', (Label.segment i).text) := by
    rw [s.segments_eq_mapIdx.1]
    exact filterMap_mapIdx_of_read p.timeline fun i a => readStream?_video rfl
  have htracks : (s.tracks.map Node.text).filterMap readStream? = p.audioTracks.mapIdx fun j t =>
      (placeOf g.inputs (p.audioAsset t), 'a', (Label.track j).text) := by
    rw [s.tracks_eq_mapIdx.1]
    exact filterMap_mapIdx_of_read p.audioTracks fun j t => readStream?_audio rfl
  have hjoin : (s.join.map Node.text).filterMap readStream? = [] := by
    refine filterMap_eq_nil_of_output fun n hn => ?_
    rcases joinBase_ok s.join_eq with ⟨_, hjoin⟩ | ⟨htwo, _, hjoin⟩
    · rw [hjoin] at hn
      cases hn
    · rw [hjoin, List.mem_singleton] at hn
      obtain ⟨l, labels, hlabels⟩ := List.exists_cons_of_ne_nil (l := baseLabels p) fun hnil => by
        simp [hnil] at htwo
      exact ⟨l, labels.map .output, by rw [hn, hlabels, List.map_cons]⟩
  have hcomposites : (s.composites.map Node.text).filterMap readStream? = [] := by
    refine filterMap_eq_nil_of_output fun n hn => ?_
    obtain ⟨k, _, rfl⟩ := List.mem_mapIdx.1 hn
    exact ⟨_, _, rfl⟩
  have hcaptions : (s.captions.map Node.text).filterMap readStream? = [] := by
    refine filterMap_eq_nil_of_output fun n hn => ?_
    obtain ⟨k, _, rfl⟩ := List.mem_mapIdx.1 hn
    exact ⟨_, _, rfl⟩
  have hsound : ([s.sound].map Node.text).filterMap readStream? = [] := by
    rw [List.map_singleton, List.filterMap_cons_none s.readStream?_sound, List.filterMap_nil]
  have hne : g.nodes ≠ [] := by simp [hnodes, nodes]
  rw [readStreams, splitOutside_text hne, hnodes, nodes]
  simp only [List.map_append, List.filterMap_append, hsegments, hjoin, hcomposites, hcaptions,
    htracks, hsound, List.append_nil]

/-- Each stream is one of the asset of its segment or track. -/
theorem assets_of_streams (s : Sections p g) (hnodes : g.nodes = s.nodes) :
    (readStreams g.text).map (fun stream => (p.assetUrls[stream.1]?, stream.2)) =
      (p.timeline.mapIdx fun i a => (p.segmentAsset a, 'v', (Label.segment i).text)) ++
      p.audioTracks.mapIdx fun j t => (p.audioAsset t, 'a', (Label.track j).text) := by
  have hresolved {α : Type} {items : List α} {asset? : α → Option String}
      (h : ∀ a ∈ items, ∃ asset, asset? a = some asset ∧
        g.inputs[placeOf g.inputs (some asset)]? = some asset) (kind : Char)
      (label : Nat → String) :
      (items.mapIdx fun i a => (placeOf g.inputs (asset? a), kind, label i)).map
          (fun stream => (g.inputs[stream.1]?, stream.2)) =
        items.mapIdx fun i a => (asset? a, kind, label i) := by
    refine List.ext_getElem? fun i => ?_
    rw [List.getElem?_map, List.getElem?_mapIdx, List.getElem?_mapIdx, Option.map_map]
    refine Option.map_congr fun a ha => ?_
    obtain ⟨asset, hasset, hk⟩ := h a (List.mem_of_getElem? ha)
    rw [Function.comp_apply, hasset, hk]
  rw [s.readStreams_text hnodes, List.map_append, ← s.inputs_eq,
    hresolved s.segments_eq_mapIdx.2, hresolved s.tracks_eq_mapIdx.2]

end Sections

end Graph

end RenderGateway
