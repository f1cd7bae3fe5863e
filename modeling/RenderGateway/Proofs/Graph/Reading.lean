import RenderGateway.Proofs.Graph.Pads
import RenderGateway.Proofs.Graph.Quoting

/-!
# Graphs as they are read

An encoder has no more of a graph than its text. It splits the text at the semicolons outside
quoted spans and takes the labels in brackets off both ends of every part; what stands between them
is split at the commas outside the spans and gives the filters, each with its name in front of an
equals sign. `readGraph_text` says that the text of a graph is read as the graph was meant.
-/

namespace RenderGateway

namespace VideoFilter

/-- The name of the filter that makes an effect. -/
def filterName : VideoFilter → String
  | grayscale => "hue"
  | blur _ => "gblur"
  | sharpen => "unsharp"
  | brightness _ | contrast _ | saturation _ => "eq"

end VideoFilter

namespace Graph

/-! ### The reader -/

/-- A part of a graph: the labels of what it takes, its filters, and the labels of what it makes. -/
structure Filterchain where
  inputs : List String
  filters : List String
  outputs : List String
deriving DecidableEq, Repr

/-- What stands between the brackets that a text begins with, and the text behind them. If a bracket
is open, the characters since then are given, the last one first. -/
def labelsFrom (opening closing : Char) :
    Option (List Char) → List Char → List (List Char) × List Char
  | none, [] => ([], [])
  | none, c :: cs =>
    if c = opening then labelsFrom opening closing (some []) cs else ([], c :: cs)
  | some _, [] => ([], [])
  | some name, c :: cs =>
    if c = closing then
      let (names, rest) := labelsFrom opening closing none cs
      (name.reverse :: names, rest)
    else labelsFrom opening closing (some (c :: name)) cs

def readChain (part : String) : Filterchain :=
  let (inputs, behind) := labelsFrom '[' ']' none part.toList
  -- the labels at the end are read from behind, letter by letter
  let (outputs, front) := labelsFrom ']' '[' none behind.reverse
  { inputs := inputs.map String.ofList
    filters := splitOutside ',' (String.ofList front.reverse)
    outputs := (outputs.map fun name => String.ofList name.reverse).reverse }

def readGraph (text : String) : List Filterchain := (splitOutside ';' text).map readChain

/-- The file and the kind of stream that a label names, if it is no output of another part. -/
def fileOf? (label : String) : Option (Nat × Char) :=
  match label.toList.span Char.isDigit with
  | (d :: ds, [':', kind]) => some (Numeral.value (d :: ds), kind)
  | _ => none

/-- The name of a filter: its text up to the first equals sign. -/
def nameOf (s : String) : String := String.ofList (s.toList.takeWhile fun c => c ≠ '=')

namespace Filterchain

/-- Whether a part has a filter of a name. -/
def runs (name : String) (n : Filterchain) : Bool := n.filters.any fun f => nameOf f = name

/-- Whether a part takes a stream of a kind from a file. -/
def opens (kind : Char) (n : Filterchain) : Bool :=
  n.inputs.any fun l => (fileOf? l).any fun file => file.2 = kind

end Filterchain

/-! ### Labels -/

/-- The label of a pad. -/
def Pad.name : Pad → String
  | video k => toString k ++ ":v"
  | audio k => toString k ++ ":a"
  | output l => l.text

theorem Pad.toList_name (pad : Pad) : pad.name.toList = pad.body := by
  cases pad <;> simp [name, body, Numeral.digits, Nat.toString_eq_repr, Nat.repr]

theorem Pad.plain_name (pad : Pad) : Plain pad.name := by
  cases pad with
  | video k => exact Plain.append_iff.2 ⟨plain_nat k, by decide⟩
  | audio k => exact Plain.append_iff.2 ⟨plain_nat k, by decide⟩
  | output l => exact l.plain_text

theorem Pad.name_injective : Function.Injective Pad.name := by
  intro a b h
  refine Pad.text_injective (String.toList_inj.1 ?_)
  rw [toList_text, toList_text, ← toList_name, ← toList_name, h]

theorem fileOf?_file {k : Nat} {kind : Char} {label : String}
    (h : label.toList = Numeral.digits k ++ [':', kind]) : fileOf? label = some (k, kind) := by
  have hspan : (Numeral.digits k ++ [':', kind]).span Char.isDigit =
      (Numeral.digits k, [':', kind]) := Numeral.span_digits k (by rintro c ⟨⟩; rfl)
  obtain ⟨d, ds, hd⟩ := List.exists_cons_of_ne_nil (Numeral.digits_ne_nil k)
  have hvalue : Numeral.value (d :: ds) = k := hd ▸ Numeral.value_digits k
  rw [hd] at hspan h
  simp only [fileOf?, h, hspan, hvalue]

/-- The label of an output begins with a letter. -/
theorem fileOf?_text (l : Label) : fileOf? l.text = none := by
  obtain ⟨c, cs, hl, hc⟩ := l.exists_toList_text
  have hspan : (c :: cs).span Char.isDigit = ([], c :: cs) :=
    @Numeral.span_of_isDigit [] (c :: cs) nofun (by simpa using hc)
  simp only [fileOf?, hl, hspan]

theorem fileOf?_name (pad : Pad) : fileOf? pad.name =
    match pad with
    | .video k => some (k, 'v')
    | .audio k => some (k, 'a')
    | .output _ => none := by
  cases pad with
  | video k => exact fileOf?_file (Pad.video k).toList_name
  | audio k => exact fileOf?_file (Pad.audio k).toList_name
  | output l => exact fileOf?_text l

theorem fileOf?_name_eq_some_iff {pad : Pad} {k : Nat} {kind : Char} :
    fileOf? pad.name = some (k, kind) ↔
      (pad = .video k ∧ kind = 'v') ∨ pad = .audio k ∧ kind = 'a' := by
  rw [fileOf?_name]
  cases pad <;> simp [eq_comm]

theorem fileOf?_name_eq_none_iff {pad : Pad} :
    fileOf? pad.name = none ↔ ∃ l, pad = .output l := by
  rw [fileOf?_name]
  cases pad <;> simp

/-! ### Names of filters -/

/-- A text that goes on behind an equals sign has the name of what stands in front. -/
theorem nameOf_of_prefix {s t : String} (h : '=' ∈ s.toList) (hstart : s.toList <+: t.toList) :
    nameOf t = nameOf s := by
  obtain ⟨rest, hrest⟩ := hstart
  have hstop : (s.toList.takeWhile fun c => c ≠ '=').length ≠ s.toList.length := by
    intro hlength
    have hall := (List.takeWhile_prefix fun c => c ≠ '=').eq_of_length hlength
    have hkept := List.all_takeWhile (p := fun c => decide (c ≠ '=')) (l := s.toList)
    rw [hall] at hkept
    simpa using List.all_eq_true.1 hkept '=' h
  rw [nameOf, ← hrest, List.takeWhile_append, if_neg hstop, nameOf]

theorem nameOf_append {s : String} (h : '=' ∈ s.toList) (t : String) :
    nameOf (s ++ t) = nameOf s :=
  nameOf_of_prefix h (by simp)

namespace Filter

def name : Filter → String
  | trim _ _ => "trim"
  | retime _ _ => "setpts"
  | fit _ _ => "scale"
  | pad _ _ => "pad"
  | squarePixels => "setsar"
  | frameRate _ => "fps"
  | effect filter => filter.filterName
  | fadeIn _ _ => "fade"
  | concat _ => "concat"
  | overlay _ _ => "overlay"
  | drawText _ => "drawtext"
  | audioTrim _ _ | audioEnd _ => "atrim"
  | audioRestart => "asetpts"
  | audioFormat => "aformat"
  | tempo _ => "atempo"
  | volume _ => "volume"
  | audioFadeIn _ | audioFadeOut _ _ => "afade"
  | delay _ => "adelay"
  | silence => "anullsrc"
  | mix _ => "amix"
  | audioPad => "apad"

/-- The text of a filter tells its name. -/
theorem nameOf_text (f : Filter) : nameOf f.text = f.name := by
  cases f with
  | effect filter =>
    change nameOf filter.expression = filter.filterName
    cases filter with
    | grayscale | sharpen => decide +kernel
    | blur | brightness | contrast | saturation =>
      delta VideoFilter.expression VideoFilter.filterName
      dsimp only
      rw [nameOf_append (by decide +kernel)]
      decide +kernel
  | squarePixels | audioRestart | audioFormat | silence | audioPad => decide +kernel
  | retime | frameRate | overlay | drawText | tempo | volume | audioFadeIn | audioEnd =>
    delta text name TextOverlay.drawText
    dsimp only
    rw [nameOf_append (by decide +kernel)]
    decide +kernel
  | trim | fit | pad | fadeIn | concat | audioTrim | audioFadeOut | delay | mix =>
    delta text name
    dsimp only
    simp only [String.append_assoc]
    rw [nameOf_append (by decide +kernel)]
    decide +kernel

theorem name_ne_empty (f : Filter) : f.name ≠ "" := by
  cases f with
  | effect filter => cases filter <;> simp [name, VideoFilter.filterName]
  | _ => simp [name]

theorem text_ne_empty (f : Filter) : f.text ≠ "" := by
  intro h
  refine f.name_ne_empty ?_
  rw [← nameOf_text, h]
  rfl

end Filter

/-- The names of the filters that make effects. -/
def effectNames : List String := ["hue", "gblur", "unsharp", "eq"]

theorem names_segment (s : Segment) (f : OutputFormat) :
    (s.chain f).map Filter.name =
      ["trim", "setpts", "scale", "pad", "setsar", "fps"] ++
        s.filters.map VideoFilter.filterName ++ (if s.transition.isSome then ["fade"] else []) := by
  have heffects : (s.filters.map Filter.effect).map Filter.name =
      s.filters.map VideoFilter.filterName := by
    rw [List.map_map]
    rfl
  unfold Segment.chain fitFrame
  simp only [List.map_append, heffects]
  cases s.transition <;> rfl

theorem names_track (t : AudioTrack) :
    t.chain.map Filter.name =
      ["atrim", "asetpts", "aformat"] ++ (tempoStages t.speed).map (fun _ => "atempo") ++
        ["volume"] ++ ((if 0 < t.fadeIn.toInt then ["afade"] else []) ++
          (if 0 < t.fadeOut.toInt then ["afade"] else [])) ++
        (if 0 < t.timelineStart.toInt then ["adelay"] else []) := by
  have hstages : ((tempoStages t.speed).map Filter.tempo).map Filter.name =
      (tempoStages t.speed).map fun _ => "atempo" := by
    rw [List.map_map]
    rfl
  unfold AudioTrack.chain AudioTrack.fadeChain
  simp only [List.map_append, hstages]
  split_ifs <;> rfl

/-- The names of the filters in the chains of segments. -/
def segmentNames : List String :=
  ["trim", "setpts", "scale", "pad", "setsar", "fps", "fade"] ++ effectNames

/-- The names of the filters in the chains of tracks. -/
def trackNames : List String :=
  ["atrim", "asetpts", "aformat", "atempo", "volume", "afade", "adelay"]

theorem filterName_mem (f : VideoFilter) : f.filterName ∈ effectNames := by
  cases f <;> simp [VideoFilter.filterName, effectNames]

theorem not_mem_filterNames {name : String} (h : name ∉ effectNames)
    (filters : List VideoFilter) : name ∉ filters.map VideoFilter.filterName := by
  intro hmem
  obtain ⟨effect, _, rfl⟩ := List.mem_map.1 hmem
  exact h (filterName_mem effect)

theorem names_segment_subset (s : Segment) (f : OutputFormat) :
    (s.chain f).map Filter.name ⊆ segmentNames := by
  intro name hname
  rw [names_segment, List.mem_append, List.mem_append] at hname
  rcases hname with (hname | hname) | hname
  · simp only [segmentNames, List.mem_append]
    left
    revert name
    decide
  · obtain ⟨effect, _, rfl⟩ := List.mem_map.1 hname
    exact List.mem_append_right _ (filterName_mem effect)
  · obtain ⟨_, rfl⟩ : s.transition.isSome = true ∧ name = "fade" := by simpa using hname
    simp [segmentNames]

theorem names_track_subset (t : AudioTrack) : t.chain.map Filter.name ⊆ trackNames := by
  intro name hname
  rw [names_track] at hname
  simp only [List.mem_append, List.mem_map, List.mem_cons, List.mem_ite_nil_right] at hname
  simp only [trackNames, List.mem_cons]
  grind

/-! ### Reading what was written -/

section Brackets

variable {opening closing : Char}

theorem labelsFrom_open {name : List Char} (h : closing ∉ name) (read rest : List Char) :
    labelsFrom opening closing (some read) (name ++ closing :: rest) =
      ((read.reverse ++ name) :: (labelsFrom opening closing none rest).1,
        (labelsFrom opening closing none rest).2) := by
  induction name generalizing read with
  | nil => simp [labelsFrom]
  | cons c name ih =>
    rw [List.mem_cons, not_or] at h
    rw [List.cons_append, labelsFrom, if_neg (Ne.symm h.1), ih h.2]
    simp

/-- Labels in brackets are read one by one up to the first character that opens none. -/
theorem labelsFrom_brackets {names : List (List Char)} (h : ∀ name ∈ names, closing ∉ name)
    {rest : List Char} (hrest : rest.head? ≠ some opening) :
    labelsFrom opening closing none
        (names.flatMap (fun name => opening :: (name ++ [closing])) ++ rest) = (names, rest) := by
  induction names with
  | nil =>
    cases rest with
    | nil => rfl
    | cons c rest =>
      have hc : c ≠ opening := fun hc => hrest (congrArg some hc)
      rw [List.flatMap_nil, List.nil_append, labelsFrom, if_neg hc]
  | cons name names ih =>
    obtain ⟨hname, hnames⟩ := List.forall_mem_cons.1 h
    rw [List.flatMap_cons, List.cons_append, List.cons_append, labelsFrom, if_pos rfl,
      List.append_assoc, List.append_assoc, List.singleton_append, labelsFrom_open hname,
      ih hnames]
    rfl

end Brackets

section Ends

variable {banned : List Char} {s : String}

/-- A text does not begin with a character that it does not have outside its spans. -/
theorem Sealed.head?_ne (h : Sealed banned s) {c : Char} (hc : c ∈ banned) (hquote : c ≠ '\'') :
    s.toList.head? ≠ some c := by
  intro hhead
  obtain ⟨cs, hcs⟩ : ∃ cs, s.toList = c :: cs := by
    cases hs : s.toList with
    | nil => simp [hs] at hhead
    | cons d ds => exact ⟨ds, by simpa [hs] using hhead⟩
  refine h.outside_not_mem c hc ?_
  rw [outside, String.toList_ofList, hcs, outsideFrom, if_neg hquote, if_neg Bool.false_ne_true]
  exact List.mem_cons_self

/-- Nor does it end with one. -/
theorem Sealed.getLast?_ne (h : Sealed banned s) {c : Char} (hc : c ∈ banned) (hquote : c ≠ '\'') :
    s.toList.getLast? ≠ some c := by
  intro hlast
  obtain ⟨cs, hcs⟩ := List.getLast?_eq_some_iff.1 hlast
  have hclosed : quotedAfter false cs = false := by
    have hbalanced : quotedAfter false s.toList = false := h.balanced
    rwa [hcs, quotedAfter_append, quotedAfter, if_neg hquote, quotedAfter] at hbalanced
  refine h.outside_not_mem c hc ?_
  rw [outside, String.toList_ofList, hcs, outsideFrom_append, hclosed, outsideFrom, if_neg hquote,
    if_neg Bool.false_ne_true]
  exact List.mem_append_right _ List.mem_cons_self

end Ends

/-- A node as it is read. -/
def Node.read (n : Node) : Filterchain where
  inputs := n.pads.map Pad.name
  filters := n.chain.map Filter.text
  outputs := [n.label.text]

theorem Node.toList_text (n : Node) : n.text.toList =
    (n.pads.map Pad.body).flatMap (fun name => '[' :: (name ++ [']'])) ++
      ((chainText n.chain).toList ++ '[' :: (n.label.text.toList ++ [']'])) := by
  have hpads : (String.join (n.pads.map Pad.text)).toList =
      (n.pads.map Pad.body).flatMap fun name => '[' :: (name ++ [']']) := by
    rw [String.toList_join, List.flatMap_map, List.flatMap_map]
    simp only [Pad.toList_text]
  rw [Node.text, String.toList_append, String.toList_append, hpads, Pad.toList_text, Pad.body,
    List.append_assoc]

theorem chainText_ne_empty {chain : List Filter} (h : chain ≠ []) : chainText chain ≠ "" := by
  obtain ⟨f, rest, rfl⟩ := List.exists_cons_of_ne_nil h
  intro hempty
  have hsplit := splitOutside_chainText (List.cons_ne_nil f rest)
  rw [hempty] at hsplit
  exact f.text_ne_empty (List.cons.inj hsplit).1.symm

theorem readChain_text {n : Node} (h : n.chain ≠ []) : readChain n.text = n.read := by
  have hsealed := sealed_chainText n.chain
  have hnonempty : (chainText n.chain).toList ≠ [] := fun hnil =>
    chainText_ne_empty h (String.toList_inj.1 hnil)
  have hplain (pad : Pad) {c : Char} (hc : c ∈ delimiters) : c ∉ pad.body := by
    rw [← pad.toList_name]
    exact fun hmem => pad.plain_name c hmem (List.mem_cons_of_mem _ hc)
  have hfront : labelsFrom '[' ']' none n.text.toList = (n.pads.map Pad.body,
      (chainText n.chain).toList ++ '[' :: (n.label.text.toList ++ [']'])) := by
    rw [n.toList_text]
    refine labelsFrom_brackets (List.forall_mem_map.2 fun pad _ => hplain pad (by decide)) ?_
    rw [List.head?_append_of_ne_nil _ hnonempty]
    exact hsealed.head?_ne (by decide) (by decide)
  have hback : labelsFrom ']' '[' none
      ((chainText n.chain).toList ++ '[' :: (n.label.text.toList ++ [']'])).reverse =
        ([n.label.text.toList.reverse], (chainText n.chain).toList.reverse) := by
    have hreverse : ((chainText n.chain).toList ++ '[' :: (n.label.text.toList ++ [']'])).reverse =
        [n.label.text.toList.reverse].flatMap (fun name => ']' :: (name ++ ['['])) ++
          (chainText n.chain).toList.reverse := by simp
    rw [hreverse]
    refine labelsFrom_brackets (List.forall_mem_singleton.2 ?_) ?_
    · rw [List.mem_reverse]
      exact hplain (.output n.label) (by decide)
    · rw [List.head?_reverse]
      exact hsealed.getLast?_ne (by decide) (by decide)
  have hnames : (n.pads.map Pad.body).map String.ofList = n.pads.map Pad.name := by
    rw [List.map_map]
    exact List.map_congr_left fun pad _ => by
      rw [Function.comp_apply, ← pad.toList_name, String.ofList_toList]
  rw [readChain, hfront]
  dsimp only
  rw [hback]
  dsimp only
  rw [hnames, List.reverse_reverse, String.ofList_toList, splitOutside_chainText h,
    List.map_singleton, List.reverse_reverse, String.ofList_toList, List.reverse_singleton]
  rfl

/-- The text of a graph is read as its nodes. -/
theorem readGraph_text {g : Graph} (hne : g.nodes ≠ []) (h : ∀ n ∈ g.nodes, n.chain ≠ []) :
    readGraph g.text = g.nodes.map Node.read := by
  rw [readGraph, splitOutside_text hne, List.map_map]
  exact List.map_congr_left fun n hn => readChain_text (h n hn)

end Graph

namespace Plan

open RenderGateway.Graph

/-- A compiled graph has the sections of its plan, and its text is read as their nodes. -/
theorem read_of_compile {p : Plan} {engine : Engine} {output : String} {c : CompiledCommand}
    (h : p.compile engine output = .ok c) :
    ∃ g, ∃ s : Sections p g, g.nodes = s.nodes ∧ g.picture = s.picture ∧
      g.duration = p.outputDuration ∧ c.graph = g.text ∧
      c.args = (g.invocation p.encoding output).args ∧
      readGraph c.graph = s.nodes.map Node.read := by
  obtain ⟨g, hg, hgraph, hargs⟩ := compile_ok h
  obtain ⟨s, hnodes, hpicture, hduration⟩ := ofPlan_ok hg
  refine ⟨g, s, hnodes, hpicture, hduration, hgraph, hargs, ?_⟩
  rw [hgraph, ← hnodes]
  exact readGraph_text (by simp [hnodes, Sections.nodes])
    fun n hn => (s.arises (hnodes ▸ hn)).chain_ne_nil

end Plan

end RenderGateway
