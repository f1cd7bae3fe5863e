import RenderGateway.Proofs.Command.Arguments
import RenderGateway.Proofs.Graph.Reading

/-!
# The wiring of compiled graphs

What an encoder needs of a graph, in the text of it: every label is made once and taken once, by a
later part, except for the two labels that the command maps to its output; every file that is read
is an input of the command; and the parts that join pictures or make the sound are the ones that the
plan calls for.
-/

namespace RenderGateway

namespace Graph

/-- The labels of the base segments, in the order of the timeline. -/
def baseNames (p : Plan) : List String :=
  (p.timeline.zipIdx.filter fun a => a.1.isBase).map fun a => "v" ++ toString a.2

/-- Whether a part makes one sound out of many or none. -/
def Filterchain.sounds (n : Filterchain) : Bool := n.runs "amix" || n.runs "anullsrc"

/-- The wiring that a plan calls for, over the inputs of a command that writes the picture of the
given label. -/
structure Wired (p : Plan) (inputs : List String) (picture : String)
    (chains : List Filterchain) : Prop where
  outputs_eq : chains.map Filterchain.outputs = (planLabels p).map fun l => [l.text]
  outputs_nodup : (chains.flatMap Filterchain.outputs).Nodup
  reads_earlier : ∀ before n after, chains = before ++ n :: after →
    ∀ l ∈ n.inputs, fileOf? l = none → l ∈ before.flatMap Filterchain.outputs
  read_once : ∀ before n after, chains = before ++ n :: after →
    ∀ l ∈ n.outputs, l ≠ picture → l ≠ "aout" →
      l ∉ (before ++ [n]).flatMap Filterchain.inputs ∧
      (after.flatMap Filterchain.inputs).count l = 1
  unread : ∀ l, l = picture ∨ l = "aout" →
    l ∈ chains.flatMap Filterchain.outputs ∧ l ∉ chains.flatMap Filterchain.inputs
  picture_ne_sound : picture ≠ "aout"
  files_lt : ∀ n ∈ chains, ∀ l ∈ n.inputs, ∀ k kind, fileOf? l = some (k, kind) → k < inputs.length
  segments : ∀ n ∈ chains, ∀ i : Nat, n.outputs = ["v" ++ toString i] →
    ∃ (a : Segment) (k : Nat) (asset : String), p.timeline[i]? = some a ∧
      p.segmentAsset a = some asset ∧ inputs[k]? = some asset ∧
      n = ⟨[toString k ++ ":v"], (a.chain p.format).map Filter.text, ["v" ++ toString i]⟩
  tracks : ∀ n ∈ chains, ∀ j : Nat, n.outputs = ["a" ++ toString j] →
    ∃ (t : AudioTrack) (k : Nat) (asset : String), p.audioTracks[j]? = some t ∧
      p.audioAsset t = some asset ∧ inputs[k]? = some asset ∧
      n = ⟨[toString k ++ ":a"], t.chain.map Filter.text, ["a" ++ toString j]⟩
  concat_chains : chains.filter (Filterchain.runs "concat") =
    if 2 ≤ p.baseSegments.length then
      [⟨baseNames p, ["concat=n=" ++ toString p.baseSegments.length ++ ":v=1:a=0"], ["vbase"]⟩]
    else []
  mixed : p.audioTracks ≠ [] → chains.filter Filterchain.sounds =
    [⟨(List.range p.audioTracks.length).map fun j => "a" ++ toString j,
      ["amix=inputs=" ++ toString p.audioTracks.length ++
          ":duration=longest:dropout_transition=0:normalize=0",
        "apad", "atrim=end=" ++ seconds p.outputDuration, "asetpts=PTS-STARTPTS"], ["aout"]⟩]
  silent : p.audioTracks = [] →
    chains.filter Filterchain.sounds =
      [⟨[], ["anullsrc=channel_layout=stereo:sample_rate=48000",
        "atrim=end=" ++ seconds p.outputDuration], ["aout"]⟩] ∧
    ∀ n ∈ chains, ∀ l ∈ n.inputs, ∀ k, fileOf? l ≠ some (k, 'a')

/-! ### Nodes and their texts -/

theorem runs_read_iff {name : String} {n : Node} :
    n.read.runs name = true ↔ name ∈ n.chain.map Filter.name := by
  simp only [Filterchain.runs, Node.read, List.any_map, List.any_eq_true, Function.comp_apply,
    decide_eq_true_eq, Filter.nameOf_text, List.mem_map]

theorem runs_read_eq_false {name : String} {n : Node} {names : List String}
    (hsub : n.chain.map Filter.name ⊆ names) (h : name ∉ names) : n.read.runs name = false := by
  rw [← Bool.not_eq_true, runs_read_iff]
  exact fun hmem => h (hsub hmem)

theorem opens_read_iff {kind : Char} {n : Node} : n.read.opens kind = true ↔
    ∃ k, (.video k ∈ n.pads ∧ kind = 'v') ∨ .audio k ∈ n.pads ∧ kind = 'a' := by
  have hname (pad : Pad) : ((fileOf? pad.name).any fun file => decide (file.2 = kind)) = true ↔
      ∃ k, (pad = .video k ∧ kind = 'v') ∨ pad = .audio k ∧ kind = 'a' := by
    rw [fileOf?_name]
    cases pad <;> simp [eq_comm]
  simp only [Filterchain.opens, Node.read, List.any_map, List.any_eq_true, Function.comp_apply,
    hname]
  constructor
  · rintro ⟨pad, hpad, k, ⟨rfl, hkind⟩ | ⟨rfl, hkind⟩⟩
    · exact ⟨k, .inl ⟨hpad, hkind⟩⟩
    · exact ⟨k, .inr ⟨hpad, hkind⟩⟩
  · rintro ⟨k, ⟨hpad, hkind⟩ | ⟨hpad, hkind⟩⟩
    · exact ⟨_, hpad, k, .inl ⟨rfl, hkind⟩⟩
    · exact ⟨_, hpad, k, .inr ⟨rfl, hkind⟩⟩

section Labels

variable {nodes : List Node} {l : Label}

/-- A split of what is read is one of the nodes. -/
theorem exists_split {before after : List Filterchain} {n : Filterchain}
    (h : nodes.map Node.read = before ++ n :: after) : ∃ front m back,
      nodes = front ++ m :: back ∧ front.map Node.read = before ∧ m.read = n ∧
        back.map Node.read = after := by
  obtain ⟨front, rest, rfl, hfront, hrest⟩ := List.map_eq_append_iff.1 h
  obtain ⟨m, back, rfl, hm, hback⟩ := List.map_eq_cons_iff.1 hrest
  exact ⟨front, m, back, rfl, hfront, hm, hback⟩

theorem flatMap_outputs (nodes : List Node) :
    (nodes.map Node.read).flatMap Filterchain.outputs =
      (nodes.map Node.label).map Label.text := by
  rw [List.flatMap_map, List.map_map]
  exact List.flatMap_pure_eq_map _ _

theorem mem_outputs_iff :
    l.text ∈ (nodes.map Node.read).flatMap Filterchain.outputs ↔ l ∈ nodes.map Node.label := by
  rw [flatMap_outputs]
  exact List.mem_map_of_injective Label.text_injective

theorem flatMap_inputs (nodes : List Node) :
    (nodes.map Node.read).flatMap Filterchain.inputs = (nodes.flatMap Node.pads).map Pad.name := by
  rw [List.flatMap_map, List.map_flatMap]
  rfl

theorem flatMap_reads (nodes : List Node) :
    nodes.flatMap Node.reads = (nodes.flatMap Node.pads).filterMap Pad.label? := by
  rw [List.filterMap_flatMap]
  rfl

/-- A label is taken as often in the text as among the nodes. -/
theorem count_inputs : ((nodes.map Node.read).flatMap Filterchain.inputs).count l.text =
    (nodes.flatMap Node.reads).count l := by
  have hname : l.text = (Pad.output l).name := rfl
  rw [flatMap_inputs, flatMap_reads, hname, List.count_map_of_injective _ _ Pad.name_injective]
  induction nodes.flatMap Node.pads with
  | nil => rfl
  | cons pad pads ih =>
    cases pad with
    | video k | audio k => exact (List.count_cons_of_ne (a := Pad.output l) (by simp)).trans ih
    | output m => simp [Pad.label?, List.count_cons, ih]

theorem mem_inputs_iff :
    l.text ∈ (nodes.map Node.read).flatMap Filterchain.inputs ↔
      l ∈ nodes.flatMap Node.reads := by
  rw [← List.count_pos_iff, count_inputs, List.count_pos_iff]

/-! A flow of labels through the nodes, as it is read off their texts. -/

theorem Flows.mem_outputs_before {final : Multiset Label} (h : Flows nodes 0 final)
    {before after : List Filterchain} {n : Filterchain}
    (hn : nodes.map Node.read = before ++ n :: after) {taken : String} (htaken : taken ∈ n.inputs)
    (hfile : fileOf? taken = none) : taken ∈ before.flatMap Filterchain.outputs := by
  obtain ⟨front, m, back, hsplit, rfl, rfl, rfl⟩ := exists_split hn
  obtain ⟨pad, hpad, rfl⟩ := List.mem_map.1 htaken
  obtain ⟨l, rfl⟩ := fileOf?_name_eq_none_iff.1 hfile
  exact mem_outputs_iff.2 (h.mem_of_mem_reads hsplit (List.mem_filterMap.2 ⟨_, hpad, rfl⟩))

theorem Flows.taken_once_after {final : Multiset Label} (h : Flows nodes 0 final)
    (hnodup : (nodes.map Node.label).Nodup) {before after : List Filterchain} {n : Filterchain}
    (hn : nodes.map Node.read = before ++ n :: after) {made : String} (hmade : made ∈ n.outputs)
    (hfinal : ∀ l ∈ final, made ≠ l.text) :
    made ∉ (before ++ [n]).flatMap Filterchain.inputs ∧
      (after.flatMap Filterchain.inputs).count made = 1 := by
  obtain ⟨front, m, back, hsplit, rfl, rfl, rfl⟩ := exists_split hn
  obtain rfl := List.mem_singleton.1 hmade
  have hbefore := h.not_read_before hnodup hsplit
  rw [← mem_inputs_iff, List.map_append] at hbefore
  exact ⟨hbefore, count_inputs.trans (h.count_after hnodup hsplit fun hl => hfinal _ hl rfl)⟩

theorem Flows.final_not_taken {final : Multiset Label} (h : Flows nodes 0 final)
    (hnodup : (nodes.map Node.label).Nodup) (hl : l ∈ final) :
    l.text ∈ (nodes.map Node.read).flatMap Filterchain.outputs ∧
      l.text ∉ (nodes.map Node.read).flatMap Filterchain.inputs := by
  rw [mem_outputs_iff, mem_inputs_iff]
  exact h.final_unread hnodup hl

end Labels

/-- The node of a segment, by its label. -/
theorem Arises.segment_of_label {p : Plan} {g : Graph} {n : Node} (h : Arises p g n) {i : Nat}
    (hl : n.label = .segment i) : ∃ s k asset, p.timeline[i]? = some s ∧
      p.segmentAsset s = some asset ∧ g.inputs[k]? = some asset ∧
      n = ⟨[.video k], s.chain p.format, .segment i⟩ := by
  cases h with
  | segment item resolved opened =>
    cases hl
    exact ⟨_, _, _, item, resolved, opened, rfl⟩
  | join | composite | caption | track => cases hl
  | sound =>
    rw [soundNode_label] at hl
    cases hl

/-- The node of a track, by its label. -/
theorem Arises.track_of_label {p : Plan} {g : Graph} {n : Node} (h : Arises p g n) {j : Nat}
    (hl : n.label = .track j) : ∃ t k asset, p.audioTracks[j]? = some t ∧
      p.audioAsset t = some asset ∧ g.inputs[k]? = some asset ∧
      n = ⟨[.audio k], t.chain, .track j⟩ := by
  cases h with
  | track item resolved opened =>
    cases hl
    exact ⟨_, _, _, item, resolved, opened, rfl⟩
  | segment | join | composite | caption => cases hl
  | sound =>
    rw [soundNode_label] at hl
    cases hl

/-- A node takes one stream of a file, or what other nodes make. -/
theorem Arises.pads_cases {p : Plan} {g : Graph} {n : Node} (h : Arises p g n) :
    (∃ k i, n.pads = [.video k] ∧ n.label = .segment i) ∨
    (∃ k j, n.pads = [.audio k] ∧ n.label = .track j) ∨
    ∃ labels : List Label, n.pads = labels.map .output := by
  cases h with
  | segment => exact .inl ⟨_, _, rfl, rfl⟩
  | track => exact .inr (.inl ⟨_, _, rfl, rfl⟩)
  | join => exact .inr (.inr ⟨baseLabels p, rfl⟩)
  | composite => exact .inr (.inr ⟨[_, _], rfl⟩)
  | caption => exact .inr (.inr ⟨[_], rfl⟩)
  | sound =>
    right; right
    unfold soundNode
    split
    · exact ⟨[], rfl⟩
    · exact ⟨(List.range p.audioTracks.length).map .track, (List.map_map ..).symm⟩

theorem Arises.file_lt {p : Plan} {g : Graph} {n : Node} (h : Arises p g n) {pad : Pad}
    (hpad : pad ∈ n.pads) {k : Nat} (hk : pad.file? = some k) : k < g.inputs.length := by
  rcases h.pads_cases with ⟨_, i, _, hi⟩ | ⟨_, j, _, hj⟩ | ⟨labels, hpads⟩
  · obtain ⟨_, _, asset, _, _, hopened, rfl⟩ := h.segment_of_label hi
    rw [List.mem_singleton.1 hpad] at hk
    cases hk
    exact (List.getElem?_eq_some_iff.1 hopened).1
  · obtain ⟨_, _, asset, _, _, hopened, rfl⟩ := h.track_of_label hj
    rw [List.mem_singleton.1 hpad] at hk
    cases hk
    exact (List.getElem?_eq_some_iff.1 hopened).1
  · rw [hpads] at hpad
    obtain ⟨l, _, rfl⟩ := List.mem_map.1 hpad
    cases hk

/-- Only the node of a segment reads a picture from a file. -/
theorem Arises.label_of_video {p : Plan} {g : Graph} {n : Node} (h : Arises p g n) {k : Nat}
    (hpad : .video k ∈ n.pads) : ∃ i, n.label = .segment i := by
  rcases h.pads_cases with ⟨_, i, _, hi⟩ | ⟨_, _, hpads, _⟩ | ⟨labels, hpads⟩
  · exact ⟨i, hi⟩
  · simp [hpads] at hpad
  · simp [hpads] at hpad

/-- Only the node of a track reads a sound from a file. -/
theorem Arises.label_of_audio {p : Plan} {g : Graph} {n : Node} (h : Arises p g n) {k : Nat}
    (hpad : .audio k ∈ n.pads) : ∃ j, n.label = .track j := by
  rcases h.pads_cases with ⟨_, _, hpads, _⟩ | ⟨_, j, _, hj⟩ | ⟨labels, hpads⟩
  · simp [hpads] at hpad
  · exact ⟨j, hj⟩
  · simp [hpads] at hpad

namespace Sections

variable {p : Plan} {g : Graph}

/-- Parts that only the joining node and the sound can be. -/
theorem filter_join_sound (s : Sections p g) (kind : Node → Bool)
    (hsegment : ∀ a i k, kind (segmentNode p.format a i k) = false)
    (hcomposite : ∀ first k upper, kind (compositeNode first k upper) = false)
    (hcaption : ∀ first k o, kind (captionNode first k o) = false)
    (htrack : ∀ t i k, kind (trackNode t i k) = false) :
    s.nodes.filter kind = s.join.filter kind ++ [s.sound].filter kind := by
  rw [nodes, List.filter_append, List.filter_append, List.filter_append, List.filter_append,
    List.filter_append, s.filter_segments _ hsegment, s.filter_composites _ hcomposite,
    s.filter_captions _ hcaption, s.filter_tracks _ htrack]
  simp only [Bool.false_eq_true, if_false, List.nil_append, List.append_nil]

theorem sound_names (s : Sections p g) : s.sound.chain.map Filter.name =
    if p.audioTracks = [] then ["anullsrc", "atrim"] else ["amix", "apad", "atrim", "asetpts"] := by
  unfold sound soundNode
  by_cases h : p.audioTracks = []
  · simp [h, Filter.name]
  · simp [h, Filter.name]

theorem filter_concat (s : Sections p g) :
    (s.nodes.map Node.read).filter (Filterchain.runs "concat") =
      if 2 ≤ p.baseSegments.length then
        [⟨baseNames p, ["concat=n=" ++ toString p.baseSegments.length ++ ":v=1:a=0"], ["vbase"]⟩]
      else [] := by
  have hsound : s.sound.read.runs "concat" = false := by
    refine runs_read_eq_false (List.Subset.refl _) ?_
    rw [sound_names]
    split <;> decide
  rw [List.filter_map, s.filter_join_sound _
    (fun a _ _ => runs_read_eq_false (names_segment_subset a p.format) (by decide))
    (fun _ _ _ => runs_read_eq_false (List.Subset.refl ["overlay"]) (by decide))
    (fun _ _ _ => runs_read_eq_false (List.Subset.refl ["drawtext"]) (by decide))
    (fun t _ _ => runs_read_eq_false (names_track_subset t) (by decide)),
    List.filter_cons_of_neg (by simp [hsound]), List.filter_nil, List.append_nil,
    ← baseLabels_length]
  rcases joinBase_ok s.join_eq with ⟨hlabels, hjoin⟩ | ⟨htwo, _, hjoin⟩
  · simp [hlabels, hjoin]
  · have hruns : (Node.read ⟨(baseLabels p).map .output, [.concat (baseLabels p).length],
        .base⟩).runs "concat" = true := runs_read_iff.2 (List.mem_singleton.2 rfl)
    rw [hjoin, if_pos htwo,
      List.filter_cons_of_pos (p := Filterchain.runs "concat" ∘ Node.read) hruns, List.filter_nil,
      List.map_singleton]
    simp only [Node.read, baseLabels, baseNames, List.map_map]
    rfl

theorem filter_sounds (s : Sections p g) :
    (s.nodes.map Node.read).filter Filterchain.sounds = [s.sound.read] := by
  have hno {n : Node} {names : List String} (hsub : n.chain.map Filter.name ⊆ names)
      (h : "amix" ∉ names ∧ "anullsrc" ∉ names) : n.read.sounds = false := by
    rw [Filterchain.sounds, runs_read_eq_false hsub h.1, runs_read_eq_false hsub h.2,
      Bool.or_false]
  have hsound : s.sound.read.sounds = true := by
    rw [Filterchain.sounds, Bool.or_eq_true, runs_read_iff, runs_read_iff, sound_names]
    split <;> decide
  have hjoin : s.join.filter (fun n => n.read.sounds) = [] :=
    s.filter_join _ (hno (List.Subset.refl ["concat"]) (by decide))
  rw [List.filter_map]
  have hfilter := s.filter_join_sound (fun n => n.read.sounds)
    (fun a _ _ => hno (names_segment_subset a p.format) (by decide))
    (fun _ _ _ => hno (List.Subset.refl ["overlay"]) (by decide))
    (fun _ _ _ => hno (List.Subset.refl ["drawtext"]) (by decide))
    (fun t _ _ => hno (names_track_subset t) (by decide))
  rw [hjoin, List.nil_append, List.filter_cons_of_pos (p := fun n : Node => n.read.sounds) hsound,
    List.filter_nil] at hfilter
  exact congrArg (List.map Node.read) hfilter

/-- Without tracks no part takes a sound from a file. -/
theorem not_audio_of_silent (s : Sections p g) (h : p.audioTracks = []) {n : Filterchain}
    (hn : n ∈ s.nodes.map Node.read) {taken : String} (htaken : taken ∈ n.inputs) {k : Nat} :
    fileOf? taken ≠ some (k, 'a') := by
  intro hfile
  obtain ⟨m, hm, rfl⟩ := List.mem_map.1 hn
  obtain ⟨pad, hpad, rfl⟩ := List.mem_map.1 htaken
  rcases fileOf?_name_eq_some_iff.1 hfile with ⟨_, hkind⟩ | ⟨rfl, _⟩
  · cases hkind
  · obtain ⟨j, hj⟩ := (s.arises hm).label_of_audio hpad
    obtain ⟨t, _, _, hitem, _⟩ := (s.arises hm).track_of_label hj
    simp [h] at hitem

theorem wired (s : Sections p g) (hpicture : g.picture = s.picture) :
    Wired p g.inputs g.picture.text (s.nodes.map Node.read) := by
  have hflows : Flows s.nodes 0 ({g.picture} + {Label.sound}) := by
    rw [hpicture]
    exact s.flows_nodes
  have hlabels : s.nodes.map Node.label = planLabels p := s.map_label_nodes
  have hnodup : (s.nodes.map Node.label).Nodup := by
    rw [hlabels]
    exact planLabels_nodup p
  have hfinal {l : Label} : l ∈ ({g.picture} + {Label.sound} : Multiset Label) ↔
      l = g.picture ∨ l = .sound := by
    rw [Multiset.mem_add, Multiset.mem_singleton, Multiset.mem_singleton]
  have hoption (label : Nat → Label) {i : Nat} {l : Label} (h : [l.text] = [(label i).text]) :
      l = label i := Label.text_injective (List.singleton_inj.1 h)
  exact {
    outputs_eq := by
      rw [← hlabels, List.map_map, List.map_map]
      rfl
    outputs_nodup := by
      rw [flatMap_outputs]
      exact hnodup.map Label.text_injective
    reads_earlier := fun _ _ _ hn _ hl hfile => hflows.mem_outputs_before hn hl hfile
    read_once := by
      intro before n after hn l hl hpicture hsound
      refine hflows.taken_once_after hnodup hn hl fun m hm => ?_
      rcases hfinal.1 hm with rfl | rfl
      · exact hpicture
      · exact hsound
    unread := by
      rintro l (rfl | rfl)
      · exact hflows.final_not_taken hnodup (hfinal.2 (.inl rfl))
      · exact hflows.final_not_taken (l := .sound) hnodup (hfinal.2 (.inr rfl))
    picture_ne_sound := by
      have hne : g.picture ≠ .sound := by simpa using hflows.final_nodup hnodup
      exact fun h => hne (Label.text_injective h)
    files_lt := by
      intro n hn l hl k kind hfile
      obtain ⟨m, hm, rfl⟩ := List.mem_map.1 hn
      obtain ⟨pad, hpad, rfl⟩ := List.mem_map.1 hl
      refine (s.arises hm).file_lt hpad ?_
      rcases fileOf?_name_eq_some_iff.1 hfile with ⟨rfl, _⟩ | ⟨rfl, _⟩ <;> rfl
    segments := by
      intro n hn i hl
      obtain ⟨m, hm, rfl⟩ := List.mem_map.1 hn
      obtain ⟨a, k, asset, ha, hasset, hk, rfl⟩ :=
        (s.arises hm).segment_of_label (hoption .segment hl)
      exact ⟨a, k, asset, ha, hasset, hk, rfl⟩
    tracks := by
      intro n hn j hl
      obtain ⟨m, hm, rfl⟩ := List.mem_map.1 hn
      obtain ⟨t, k, asset, ht, hasset, hk, rfl⟩ :=
        (s.arises hm).track_of_label (hoption .track hl)
      exact ⟨t, k, asset, ht, hasset, hk, rfl⟩
    concat_chains := s.filter_concat
    mixed := by
      intro ht
      rw [s.filter_sounds, sound, soundNode, if_neg (by simpa using ht), Node.read, List.map_map]
      rfl
    silent := by
      intro ht
      constructor
      · rw [s.filter_sounds, sound, soundNode, if_pos (by simp [ht])]
        rfl
      · exact fun n hn l hl k hfile => s.not_audio_of_silent ht hn hl hfile }

end Sections

end Graph

namespace Plan

open RenderGateway.Graph

/-- A plan that compiles is compiled to the text of a wired graph over the inputs of the command,
which writes the two labels that no part takes. -/
theorem wired_of_compile {p : Plan} {engine : Engine} {output : String} {c : CompiledCommand}
    (h : p.compile engine output = .ok c) :
    c.graph = ";".intercalate (splitOutside ';' c.graph) ∧
      Arguments.valuesOf "-filter_complex" c.args = [c.graph] ∧
      ∃ picture, Arguments.valuesOf "-map" c.args = ["[" ++ picture ++ "]", "[aout]"] ∧
        Wired p (Arguments.valuesOf "-i" c.args) picture (readGraph c.graph) := by
  obtain ⟨g, s, hnodes, hpicture, _, hgraph, hargs, hread⟩ := read_of_compile h
  have hinputs : Arguments.valuesOf "-i" c.args = g.inputs := by
    rw [hargs]
    exact Arguments.valuesOf_input g _ _ _
  have hmaps : Arguments.valuesOf "-map" c.args = ["[" ++ g.picture.text ++ "]", "[aout]"] := by
    rw [hargs]
    exact Arguments.valuesOf_map g _ _ _
  have hsplit : splitOutside ';' g.text = g.nodes.map Node.text :=
    splitOutside_text (by simp [hnodes, Sections.nodes])
  refine ⟨?_, ?_, g.picture.text, hmaps, ?_⟩
  · rw [hgraph, hsplit, text]
  · rw [hargs, hgraph]
    exact Arguments.valuesOf_graph g _ _ _
  · rw [hread, hinputs]
    exact s.wired hpicture

theorem wired_of_clip : ∃ c picture, clip.compile .serverFfmpeg "clip.mp4" = .ok c ∧
    Arguments.valuesOf "-map" c.args = ["[" ++ picture ++ "]", "[aout]"] ∧
    Wired clip (Arguments.valuesOf "-i" c.args) picture (readGraph c.graph) := by
  have hok : (clip.compile .serverFfmpeg "clip.mp4").isOk = true := by decide +kernel
  obtain ⟨c, hc⟩ := exists_of_isOk hok
  obtain ⟨_, _, picture, hmaps, hwired⟩ := wired_of_compile hc
  exact ⟨c, picture, hc, hmaps, hwired⟩

end Plan

end RenderGateway
