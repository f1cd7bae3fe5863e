import RenderGateway.Command.Compile

/-!
# The sections of a compiled graph

What a successful compilation consists of: the nodes of the segments, the node
that joins the base, the composites, the captions, the nodes of the tracks and
the sound, in this order. `ofPlan_ok` takes a compiled graph apart; the lemmas
on `streamNodes` describe the two sections that read files.
-/

namespace RenderGateway

section Results

variable {ε α β : Type}

theorem bind_ok_eq (a : α) (f : α → Except ε β) : (Except.ok a >>= f) = f a := rfl

/-- A successful sequence of two computations. -/
theorem bind_ok {x : Except ε α} {f : α → Except ε β} {b : β} (h : x >>= f = .ok b) :
    ∃ a, x = .ok a ∧ f a = .ok b := by
  cases x with
  | error e => cases h
  | ok a => exact ⟨a, rfl, h⟩

theorem exists_of_isOk {x : Except ε α} (h : x.isOk = true) : ∃ a, x = .ok a := by
  cases x with
  | error e => cases h
  | ok a => exact ⟨a, rfl⟩

end Results

namespace Graph

theorem prefix_withInput (inputs : List String) (asset : String) :
    inputs <+: (withInput inputs asset).1 := by
  unfold withInput
  split
  · exact List.prefix_refl inputs
  · exact List.prefix_append inputs [asset]

/-- An input keeps its index once it has one. -/
theorem withInput_getElem? (inputs : List String) (asset : String) :
    (withInput inputs asset).1[(withInput inputs asset).2]? = some asset := by
  unfold withInput
  split
  · next i hi =>
    obtain ⟨hlt, heq, _⟩ := List.findIdx?_eq_some_iff_getElem.1 hi
    rw [List.getElem?_eq_getElem hlt]
    simpa using heq
  · simp

section Streams

variable {α : Type} {asset? : α → Option String} {missing : α → CompileError}
  {node : α → Nat → Nat → Node}

theorem streamNodes_cons_ok {inputs final : List String} {index : Nat} {a : α} {rest : List α}
    {nodes : List Node}
    (h : streamNodes asset? missing node inputs index (a :: rest) = .ok (final, nodes)) :
    ∃ asset tail, asset? a = some asset ∧
      streamNodes asset? missing node (withInput inputs asset).1 (index + 1) rest =
        .ok (final, tail) ∧
      nodes = node a index (withInput inputs asset).2 :: tail := by
  rw [streamNodes] at h
  cases ha : asset? a with
  | none => simp [ha] at h
  | some asset =>
    simp only [ha] at h
    obtain ⟨⟨final', tail⟩, hr, h⟩ := bind_ok h
    cases h
    exact ⟨asset, tail, rfl, hr, rfl⟩

theorem prefix_of_streamNodes {inputs final : List String} {index : Nat} {items : List α}
    {nodes : List Node}
    (h : streamNodes asset? missing node inputs index items = .ok (final, nodes)) :
    inputs <+: final := by
  induction items generalizing inputs index nodes with
  | nil =>
    cases h
    exact List.prefix_refl _
  | cons a rest ih =>
    obtain ⟨asset, tail, _, hr, _⟩ := streamNodes_cons_ok h
    exact (prefix_withInput inputs asset).trans (ih hr)

theorem withInput_fst (inputs : List String) (asset : String) :
    (withInput inputs asset).1 = if asset ∈ inputs then inputs else inputs ++ [asset] := by
  unfold withInput
  cases hi : inputs.findIdx? fun a => a = asset with
  | none =>
    have hnot : asset ∉ inputs := fun hmem => by
      simpa using List.findIdx?_eq_none_iff.1 hi asset hmem
    rw [if_neg hnot]
  | some i =>
    obtain ⟨hlt, heq, _⟩ := List.findIdx?_eq_some_iff_getElem.1 hi
    have hmem : asset ∈ inputs := of_decide_eq_true heq ▸ List.getElem_mem hlt
    rw [if_pos hmem]

/-- The assets of the items join the inputs in order, each once. -/
theorem inputs_of_streamNodes {inputs final : List String} {index : Nat} {items : List α}
    {nodes : List Node}
    (h : streamNodes asset? missing node inputs index items = .ok (final, nodes)) :
    final = (items.filterMap asset?).foldl
      (fun seen a => if a ∈ seen then seen else seen ++ [a]) inputs := by
  induction items generalizing inputs index nodes with
  | nil =>
    cases h
    rfl
  | cons a rest ih =>
    obtain ⟨asset, tail, ha, hr, _⟩ := streamNodes_cons_ok h
    rw [ih hr, List.filterMap_cons_some ha, List.foldl_cons, withInput_fst]

theorem map_label_of_streamNodes {label : Nat → Label}
    (hlabel : ∀ a i k, (node a i k).label = label i)
    {inputs final : List String} {index : Nat} {items : List α} {nodes : List Node}
    (h : streamNodes asset? missing node inputs index items = .ok (final, nodes)) :
    nodes.map Node.label = (List.range' index items.length).map label := by
  induction items generalizing inputs index nodes with
  | nil =>
    cases h
    rfl
  | cons a rest ih =>
    obtain ⟨asset, tail, _, hr, rfl⟩ := streamNodes_cons_ok h
    rw [List.map_cons, List.length_cons, List.range'_succ, List.map_cons, hlabel, ih hr]

/-- The node at a place is that of the item there, and reads the item's asset. -/
theorem streamNodes_getElem? {inputs final : List String} {index : Nat} {items : List α}
    {nodes : List Node}
    (h : streamNodes asset? missing node inputs index items = .ok (final, nodes))
    {i : Nat} {n : Node} (hn : nodes[i]? = some n) :
    ∃ a k asset, items[i]? = some a ∧ n = node a (index + i) k ∧ asset? a = some asset ∧
      final[k]? = some asset := by
  induction items generalizing inputs index nodes i with
  | nil =>
    cases h
    simp at hn
  | cons a rest ih =>
    obtain ⟨asset, tail, ha, hr, rfl⟩ := streamNodes_cons_ok h
    cases i with
    | zero =>
      simp only [List.getElem?_cons_zero, Option.some.injEq] at hn
      have hk := withInput_getElem? inputs asset
      obtain ⟨added, hfinal⟩ := prefix_of_streamNodes hr
      refine ⟨a, (withInput inputs asset).2, asset, rfl, hn.symm, ha, ?_⟩
      rw [← hfinal, List.getElem?_append_left (List.getElem?_eq_some_iff.1 hk).1, hk]
    | succ i =>
      simp only [List.getElem?_cons_succ] at hn
      obtain ⟨b, k, asset', hb, hnode, hasset, hk⟩ := ih hr hn
      refine ⟨b, k, asset', by simpa using hb, ?_, hasset, hk⟩
      rw [hnode]
      congr 1
      omega

end Streams

theorem joinBase_ok {labels : List Label} {bottom : Label} {join : List Node}
    (h : joinBase labels = .ok (bottom, join)) :
    labels = [bottom] ∧ join = [] ∨
      2 ≤ labels.length ∧ bottom = .base ∧
        join = [⟨labels.map .output, [.concat labels.length], .base⟩] := by
  match labels, h with
  | [l], h =>
    cases h
    exact .inl ⟨rfl, rfl⟩
  | a :: b :: rest, h =>
    cases h
    exact .inr ⟨by simp, rfl, rfl⟩

/-- The parts that a compiled graph is made of. -/
structure Sections (p : Plan) (g : Graph) where
  inputs : List String
  segments : List Node
  bottom : Label
  join : List Node
  tracks : List Node
  duration_pos : 0 < p.outputDuration
  segments_eq : segmentNodes p [] 0 p.timeline = .ok (inputs, segments)
  join_eq : joinBase (baseLabels p) = .ok (bottom, join)
  syntax_eq : syntaxError? (orderedTexts p) = none
  tracks_eq : trackNodes p inputs 0 p.audioTracks = .ok (g.inputs, tracks)

namespace Sections

variable {p : Plan} {g : Graph}

/-- The label of the picture before the captions. -/
def composed (s : Sections p g) : Label := stepInput s.bottom .composite (upperSegments p).length

def composites (s : Sections p g) : List Node :=
  (upperSegments p).mapIdx (compositeNode s.bottom)

def captions (s : Sections p g) : List Node := (orderedTexts p).mapIdx (captionNode s.composed)

/-- The label of the picture behind the captions. -/
def picture (s : Sections p g) : Label := stepInput s.composed .caption (orderedTexts p).length

def sound (_ : Sections p g) : Node := soundNode p.audioTracks.length p.outputDuration

def nodes (s : Sections p g) : List Node :=
  s.segments ++ s.join ++ s.composites ++ s.captions ++ s.tracks ++ [s.sound]

/-- A compiled graph opens every asset of its plan once, in the order of first use. -/
theorem inputs_eq (s : Sections p g) : g.inputs = p.assetUrls := by
  rw [inputs_of_streamNodes s.tracks_eq, inputs_of_streamNodes s.segments_eq, Plan.assetUrls,
    Plan.distinct, List.foldl_append]

theorem mem_segments (s : Sections p g) {n : Node} (hn : n ∈ s.segments) :
    ∃ i a k asset, p.timeline[i]? = some a ∧ p.segmentAsset a = some asset ∧
      g.inputs[k]? = some asset ∧ n = segmentNode p.format a i k := by
  obtain ⟨i, hi⟩ := List.getElem?_of_mem hn
  obtain ⟨a, k, asset, ha, hnode, hasset, hk⟩ := streamNodes_getElem? s.segments_eq hi
  obtain ⟨added, hadded⟩ := prefix_of_streamNodes s.tracks_eq
  refine ⟨i, a, k, asset, ha, hasset, ?_, by simpa using hnode⟩
  rw [← hadded, List.getElem?_append_left (List.getElem?_eq_some_iff.1 hk).1, hk]

theorem mem_tracks (s : Sections p g) {n : Node} (hn : n ∈ s.tracks) :
    ∃ i t k asset, p.audioTracks[i]? = some t ∧ p.audioAsset t = some asset ∧
      g.inputs[k]? = some asset ∧ n = trackNode t i k := by
  obtain ⟨i, hi⟩ := List.getElem?_of_mem hn
  obtain ⟨t, k, asset, ht, hnode, hasset, hk⟩ := streamNodes_getElem? s.tracks_eq hi
  exact ⟨i, t, k, asset, ht, hasset, hk, by simpa using hnode⟩

/-! The nodes of a kind, where all nodes of a section are of it or none is. -/

section Kinds

variable (kind : Node → Bool) {b : Bool}

theorem filter_of_forall {nodes : List Node} (h : ∀ n ∈ nodes, kind n = b) :
    nodes.filter kind = if b then nodes else [] := by
  cases b with
  | false => exact List.filter_eq_nil_iff.2 fun n hn => ne_true_of_eq_false (h n hn)
  | true => exact List.filter_eq_self.2 h

theorem filter_segments (s : Sections p g)
    (h : ∀ a i k, kind (segmentNode p.format a i k) = b) :
    s.segments.filter kind = if b then s.segments else [] := by
  refine filter_of_forall kind fun n hn => ?_
  obtain ⟨i, a, k, _, _, _, _, rfl⟩ := s.mem_segments hn
  exact h a i k

theorem filter_join (s : Sections p g)
    (h : kind ⟨(baseLabels p).map .output, [.concat (baseLabels p).length], .base⟩ = false) :
    s.join.filter kind = [] := by
  rcases joinBase_ok s.join_eq with ⟨_, hjoin⟩ | ⟨_, _, hjoin⟩
  · rw [hjoin, List.filter_nil]
  · rw [hjoin, List.filter_cons_of_neg (ne_true_of_eq_false h), List.filter_nil]

theorem filter_composites (s : Sections p g)
    (h : ∀ first k upper, kind (compositeNode first k upper) = b) :
    s.composites.filter kind = if b then s.composites else [] := by
  refine filter_of_forall kind fun n hn => ?_
  obtain ⟨k, _, rfl⟩ := List.mem_mapIdx.1 hn
  exact h s.bottom k _

theorem filter_captions (s : Sections p g) (h : ∀ first k o, kind (captionNode first k o) = b) :
    s.captions.filter kind = if b then s.captions else [] := by
  refine filter_of_forall kind fun n hn => ?_
  obtain ⟨k, _, rfl⟩ := List.mem_mapIdx.1 hn
  exact h s.composed k _

theorem filter_tracks (s : Sections p g) (h : ∀ t i k, kind (trackNode t i k) = b) :
    s.tracks.filter kind = if b then s.tracks else [] := by
  refine filter_of_forall kind fun n hn => ?_
  obtain ⟨i, t, k, _, _, _, _, rfl⟩ := s.mem_tracks hn
  exact h t i k

end Kinds

end Sections

/-- The nodes that a compiled graph consists of. A node that reads a file reads the
asset of its segment or track. -/
inductive Arises (p : Plan) (g : Graph) : Node → Prop
  | segment {i k : Nat} {a : Segment} {asset : String} (item : p.timeline[i]? = some a)
      (resolved : p.segmentAsset a = some asset) (opened : g.inputs[k]? = some asset) :
      Arises p g (segmentNode p.format a i k)
  | join : Arises p g
      ⟨(baseLabels p).map .output, [.concat (baseLabels p).length], .base⟩
  | composite {k : Nat} {upper : Segment × Nat} (first : Label)
      (item : (upperSegments p)[k]? = some upper) : Arises p g (compositeNode first k upper)
  | caption {k : Nat} {o : TextOverlay} (first : Label) (item : (orderedTexts p)[k]? = some o) :
      Arises p g (captionNode first k o)
  | track {i k : Nat} {t : AudioTrack} {asset : String} (item : p.audioTracks[i]? = some t)
      (resolved : p.audioAsset t = some asset) (opened : g.inputs[k]? = some asset) :
      Arises p g (trackNode t i k)
  | sound : Arises p g (soundNode p.audioTracks.length p.outputDuration)

theorem Sections.arises {p : Plan} {g : Graph} (s : Sections p g) {n : Node} (hn : n ∈ s.nodes) :
    Arises p g n := by
  simp only [nodes, List.mem_append, List.mem_singleton] at hn
  rcases hn with ((((hn | hn) | hn) | hn) | hn) | rfl
  · obtain ⟨i, a, k, asset, ha, hasset, hk, rfl⟩ := s.mem_segments hn
    exact .segment ha hasset hk
  · rcases joinBase_ok s.join_eq with ⟨_, hjoin⟩ | ⟨_, _, hjoin⟩
    · rw [hjoin] at hn
      cases hn
    · rw [hjoin, List.mem_singleton] at hn
      exact hn ▸ .join
  · obtain ⟨k, hk, rfl⟩ := List.mem_mapIdx.1 hn
    exact .composite s.bottom (List.getElem?_eq_getElem hk)
  · obtain ⟨k, hk, rfl⟩ := List.mem_mapIdx.1 hn
    exact .caption s.composed (List.getElem?_eq_getElem hk)
  · obtain ⟨i, t, k, asset, ht, hasset, hk, rfl⟩ := s.mem_tracks hn
    exact .track ht hasset hk
  · exact .sound

theorem ofPlan_ok {p : Plan} {g : Graph} (h : ofPlan p = .ok g) :
    ∃ s : Sections p g, g.nodes = s.nodes ∧ g.picture = s.picture ∧
      g.duration = p.outputDuration := by
  unfold ofPlan at h
  by_cases hd : p.outputDuration ≤ 0
  · simp [hd] at h
  · simp only [if_neg hd] at h
    obtain ⟨⟨inputs, segments⟩, hs, h⟩ := bind_ok h
    obtain ⟨⟨bottom, join⟩, hj, h⟩ := bind_ok h
    dsimp only at h
    split at h
    · cases h
    · next hx =>
      obtain ⟨⟨final, tracks⟩, ht, h⟩ := bind_ok h
      cases h
      exact ⟨⟨inputs, segments, bottom, join, tracks, by omega, hs, hj, hx, ht⟩, rfl, rfl, rfl⟩

end Graph

theorem Plan.compile_ok {p : Plan} {engine : Engine} {output : String} {c : CompiledCommand}
    (h : p.compile engine output = .ok c) :
    ∃ g, Graph.ofPlan p = .ok g ∧ c.graph = g.text ∧
      c.args = (g.invocation p.encoding output).args := by
  have hc : p.command output = .ok c := by
    cases engine with
    | serverFfmpeg | planExport => exact h
    | webcodecs | cloudinary => cases h
  unfold Plan.command at hc
  cases hg : Graph.ofPlan p with
  | error e => simp [hg] at hc
  | ok g =>
    simp only [hg, Except.ok.injEq] at hc
    exact ⟨g, rfl, hc ▸ rfl, hc ▸ rfl⟩

/-- Two base segments of one file, a segment above them, a text and a track. -/
def Plan.clip : Plan where
  id := "clip"
  projectId := none
  defaultUrl := some "a.mp4"
  sources := []
  format := OutputFormat.ofSize 640 360
  timeline :=
    [⟨"s1", none, none, none, 0, 1000, none, 0, 1000, 1000, 1, "video", 0, [], none⟩,
     ⟨"s2", none, none, none, 2000, 3000, none, 1000, 2000, 1000, 1, "video", 0, [], none⟩,
     ⟨"s3", none, none, some "b.mp4", 0, 500, none, 200, 700, 500, 1, "video", 1, [], none⟩]
  audioTracks := [⟨"t1", none, none, 0, 2000, 0, none, 1, 0, 0, 1, "music"⟩]
  textOverlays :=
    [⟨"o1", "it's; [a]", 0, 500, 24, "white", none, .bottom, none, none, none⟩]
  summary := none

end RenderGateway
