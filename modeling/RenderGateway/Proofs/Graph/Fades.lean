import RenderGateway.Proofs.Graph.Times

/-!
# Fades of tracks

The check holds the fades of a track against the length that the track has on the timeline, if it
has one. If their sum is a word, the fade at the end of such a track ends with the track, and begins
no earlier than the fade at its beginning ends. A track that plays for less than half a millisecond
has no length. Its fades are not held against anything, and it fades out from its first moment on.
-/

namespace RenderGateway

namespace Graph

/-- A fade of a sound: which way it goes, when it begins and how long it takes, in seconds. -/
structure Fade where
  way : String
  start : ℚ
  length : ℚ
deriving DecidableEq

/-- The fade that a filter is read as. -/
def fade? (filter : String) : Option Fade :=
  (lastOption? "t" filter).bind fun way =>
    ((lastOption? "st" filter).bind fun s => number? s.toList).bind fun start =>
      ((lastOption? "d" filter).bind fun s => number? s.toList).map fun length =>
        ⟨way, start, length⟩

/-- The fades in a part of a graph, in the order in which they are made. -/
def Filterchain.fades (n : Filterchain) : List (Option Fade) := (n.named "afade").map fade?

/-- The fades that a chain is read to make. -/
def fadesOf (chain : List Filter) : List (Option Fade) :=
  (chain.filter fun f => f.name = "afade").map fun f => fade? f.text

theorem fades_read (n : Node) : n.read.fades = fadesOf n.chain := by
  simp only [Filterchain.fades, Filterchain.named, Node.read, List.filter_map, List.map_map,
    Function.comp_def, Filter.nameOf_text, fadesOf]

theorem fadesOf_append (front back : List Filter) :
    fadesOf (front ++ back) = fadesOf front ++ fadesOf back := by
  simp only [fadesOf, List.filter_append, List.map_append]

theorem fadesOf_eq_nil {chain : List Filter} (h : "afade" ∉ chain.map Filter.name) :
    fadesOf chain = [] := by
  rw [fadesOf, List.map_eq_nil_iff, List.filter_eq_nil_iff]
  intro f hf hname
  exact h (of_decide_eq_true hname ▸ List.mem_map_of_mem hf)

theorem fadesOf_singleton {f : Filter} (h : f.name = "afade") : fadesOf [f] = [fade? f.text] := by
  rw [fadesOf, List.filter_singleton, h]
  rfl

theorem fade?_optionText {way start : String} (hway : Literal way ∧ Plain way)
    (hstart : Literal start ∧ Plain start) {x : ℚ} (hnumber : number? start.toList = some x)
    {duration : Int} (hduration : Writable duration) :
    fade? (optionText "afade" [("t", way), ("st", start), ("d", seconds duration)]) =
      some ⟨way, x, duration / 1000⟩ := by
  have hread := lastOption?_optionText (show '=' ∉ "afade".toList by decide)
    (List.cons_ne_nil _ _) (readsBack_fade hway hstart duration)
  rw [fade?, hread, hread, hread]
  change ((number? start.toList).bind fun a => (number? (seconds duration).toList).map fun b =>
    Fade.mk way a b) = _
  rw [hnumber, number?_seconds hduration]
  rfl

theorem fade?_audioFadeIn {duration : Int} (h : Writable duration) :
    fade? (Filter.audioFadeIn duration).text = some ⟨"in", 0, duration / 1000⟩ := by
  rw [text_audioFadeIn, fade?_optionText (by decide) (by decide) number?_zero h]

theorem fade?_audioFadeOut {start duration : Int} (hstart : Writable start)
    (hduration : Writable duration) : fade? (Filter.audioFadeOut start duration).text =
      some ⟨"out", start / 1000, duration / 1000⟩ := by
  rw [text_audioFadeOut, fade?_optionText (by decide) (literal_seconds start)
    (number?_seconds hstart) hduration]

end Graph

namespace AudioTrack

open RenderGateway.Graph

variable {p : Plan} {t : AudioTrack}

/-- The fades of a track that fades out from a time on. -/
def fadesFrom (t : AudioTrack) (start : Int) : List Fade :=
  (if 0 < t.fadeIn.toInt then [⟨"in", 0, t.fadeIn.toInt / 1000⟩] else []) ++
  (if 0 < t.fadeOut.toInt then [⟨"out", start / 1000, t.fadeOut.toInt / 1000⟩] else [])

/-- The fades of a track are the filters of its chain that are read as fades. -/
theorem fadesOf_chain (t : AudioTrack) : fadesOf t.chain =
    (t.fadesFrom (max 0 (Word.wrap (t.outputDuration.toInt - t.fadeOut.toInt)))).map some := by
  have hhead : fadesOf [.audioTrim t.trimStart.toInt t.trimEnd.toInt, .audioRestart,
      .audioFormat] = [] := fadesOf_eq_nil (by simp [Filter.name])
  have htempos : fadesOf ((tempoStages t.speed).map .tempo) = [] :=
    fadesOf_eq_nil (by simp [Filter.name])
  have hvolume : fadesOf [.volume t.volume] = [] := fadesOf_eq_nil (by simp [Filter.name])
  have hdelay : fadesOf
      (if 0 < t.timelineStart.toInt then [.delay t.timelineStart.toInt] else []) = [] :=
    fadesOf_eq_nil (by split <;> simp [Filter.name])
  rw [chain, fadeChain]
  simp only [fadesOf_append, hhead, htempos, hvolume, hdelay, List.nil_append, List.append_nil]
  rw [fadesFrom, List.map_append]
  refine congrArg₂ _ ?_ ?_
  · split
    · next hin =>
      rw [fadesOf_singleton rfl, fade?_audioFadeIn (Writable.of_nonneg hin.le), List.map_singleton]
    · rfl
  · split
    · next hout =>
      rw [fadesOf_singleton rfl, fade?_audioFadeOut (Writable.of_nonneg (le_max_left _ _))
        (Writable.of_nonneg hout.le), List.map_singleton]
    · rfl

/-- The fades of a valid track are held against its length unless their sum is no word. -/
theorem Valid.fades_le (h : t.Valid .words p) (hlength : 0 < t.outputDuration.toInt)
    (hsum : t.fadeIn.toInt + t.fadeOut.toInt < 2 ^ 63) :
    t.fadeIn.toInt + t.fadeOut.toInt ≤ t.outputDuration.toInt := by
  have hin := h.fadeIn_nonneg
  have hout := h.fadeOut_nonneg
  have hfit := h.fades_fit hlength
  rwa [Arithmetic.reduce, Word.wrap_eq_self (by omega) hsum] at hfit

/-- A track that has a length fades out at its end, and one that has none at its beginning. -/
theorem Valid.fadesOf_chain (h : t.Valid .words p) :
    (0 < t.outputDuration.toInt → t.fadeIn.toInt + t.fadeOut.toInt < 2 ^ 63 →
      fadesOf t.chain = (t.fadesFrom (t.outputDuration.toInt - t.fadeOut.toInt)).map some) ∧
    (t.outputDuration.toInt = 0 → fadesOf t.chain = (t.fadesFrom 0).map some) := by
  have hin := h.fadeIn_nonneg
  have hout := h.fadeOut_nonneg
  have hplayed : 0 ≤ t.outputDuration.toInt :=
    playedDuration_nonneg h.trimStart_nonneg h.trim_lt.le h.speed_pos
  have hleast := t.fadeOut.toInt_lt
  have hmost := t.outputDuration.toInt_lt
  have hexact : Word.wrap (t.outputDuration.toInt - t.fadeOut.toInt) =
      t.outputDuration.toInt - t.fadeOut.toInt := Word.wrap_eq_self (by omega) (by omega)
  rw [AudioTrack.fadesOf_chain, hexact]
  constructor
  · intro hlength hsum
    have hfit := h.fades_le hlength hsum
    rw [max_eq_right (by omega)]
  · intro hlength
    rw [max_eq_left (by omega)]

end AudioTrack

namespace Graph

variable {p : Plan} {g : Graph}

/-- Only the tracks of a plan are faded. -/
theorem Arises.fades_eq_nil {n : Node} (h : Arises p g n) (hn : n.read.opens 'a' = false) :
    n.read.fades = [] := by
  rw [fades_read]
  apply fadesOf_eq_nil
  cases h with
  | segment => exact fun hname => absurd (names_segment_subset _ _ hname) (by decide)
  | join => simp [Filter.name]
  | composite => simp [compositeNode_chain, Filter.name]
  | caption => simp [captionNode_chain, Filter.name]
  | track =>
    rw [← Bool.not_eq_true, opens_read_iff] at hn
    exact absurd ⟨_, .inr ⟨List.mem_singleton.2 rfl, rfl⟩⟩ hn
  | sound =>
    unfold soundNode
    split <;> simp [Filter.name]

theorem Sections.exists_track (s : Sections p g) {j : Nat} {t : AudioTrack}
    (ht : p.audioTracks[j]? = some t) : ∃ n ∈ s.nodes.map Node.read,
      n.outputs = ["a" ++ toString j] ∧ n.fades = fadesOf t.chain := by
  have htrack : s.tracks[j]? = some (trackNode t j (placeOf g.inputs (p.audioAsset t))) := by
    rw [s.tracks_eq_mapIdx.1, List.getElem?_mapIdx, ht]
    rfl
  have hmem : trackNode t j (placeOf g.inputs (p.audioAsset t)) ∈ s.nodes :=
    List.mem_append_left _ (List.mem_append_right _ (List.mem_of_getElem? htrack))
  exact ⟨_, List.mem_map_of_mem hmem, rfl, fades_read _⟩

end Graph

namespace Plan

open RenderGateway.Graph

/-- The fades of a track that passes the check are no longer than the track, if this has a length
at all and their sum is a word. An encoder reads them in the part of the track: the one at its end
begins as long before the end as it takes, and a track without a length fades out from its beginning
on. -/
theorem fades_of_check {p : Plan} {summary : PlanSummary} (hcheck : p.check = .ok summary) :
    (∀ t ∈ p.audioTracks, 0 ≤ t.outputDuration.toInt ∧
      (0 < t.outputDuration.toInt → t.fadeIn.toInt + t.fadeOut.toInt < 2 ^ 63 →
        t.fadeIn.toInt + t.fadeOut.toInt ≤ t.outputDuration.toInt)) ∧
    ∀ engine output c, p.compile engine output = .ok c →
      Arguments.valuesOf "-filter_complex" c.args = [c.graph] ∧
      (∀ n ∈ readGraph c.graph, n.opens 'a' = false → n.fades = []) ∧
      ∀ (j : Nat) (t : AudioTrack), p.audioTracks[j]? = some t →
        ∃ n ∈ readGraph c.graph, n.outputs = ["a" ++ toString j] ∧
          (0 < t.outputDuration.toInt → t.fadeIn.toInt + t.fadeOut.toInt < 2 ^ 63 →
            n.fades = (t.fadesFrom (t.outputDuration.toInt - t.fadeOut.toInt)).map some) ∧
          (t.outputDuration.toInt = 0 → n.fades = (t.fadesFrom 0).map some) := by
  have hvalid : p.Valid .words := (check_eq_ok_iff.1 hcheck).1
  refine ⟨fun t ht => ?_, fun engine output c h => ?_⟩
  · have htrack := hvalid.tracks t ht
    exact ⟨playedDuration_nonneg htrack.trimStart_nonneg htrack.trim_lt.le htrack.speed_pos,
      htrack.fades_le⟩
  obtain ⟨g, s, _, _, _, hgraph, hargs, hread⟩ := read_of_compile h
  rw [hread]
  refine ⟨?_, fun _ hpart hopens => ?_, fun j t ht => ?_⟩
  · rw [hargs, hgraph]
    exact Arguments.valuesOf_graph g _ _ _
  · obtain ⟨n, hn, rfl⟩ := List.mem_map.1 hpart
    exact (s.arises hn).fades_eq_nil hopens
  · obtain ⟨n, hn, houtputs, hfades⟩ := s.exists_track ht
    rw [← hread] at hn ⊢
    exact ⟨n, hn, houtputs,
      hfades ▸ (hvalid.tracks t (List.mem_of_getElem? ht)).fadesOf_chain⟩

/-- A film of one second with a track. -/
def filmWith (t : AudioTrack) : Plan where
  id := "film"
  projectId := none
  defaultUrl := none
  sources := []
  format := OutputFormat.ofSize 640 360
  timeline :=
    [⟨"s1", none, none, some "/uploads/a.mp4", 0, 1000, none, 0, 1000, 1000, 1, "video", 0, [],
      none⟩]
  audioTracks := [t]
  textOverlays := []
  summary := none

/-- Music of one second that comes in a quarter of it and goes in a half. -/
def swell : AudioTrack :=
  ⟨"t1", some "/uploads/music.mp3", none, 0, 1000, 0, none, 1, 250, 500, 1, "music"⟩

theorem fades_of_swell : ∃ summary c, (filmWith swell).check = .ok summary ∧
    (filmWith swell).compile .serverFfmpeg "film.mp4" = .ok c ∧
    ∃ n ∈ readGraph c.graph, n.outputs = ["a0"] ∧
      n.fades = [some ⟨"in", 0, 1 / 4⟩, some ⟨"out", 1 / 2, 1 / 2⟩] := by
  have hpassed : (filmWith swell).check.isOk = true := by decide +kernel
  obtain ⟨summary, hcheck⟩ := exists_of_isOk hpassed
  have hok : ((filmWith swell).compile .serverFfmpeg "film.mp4").isOk = true := by decide +kernel
  obtain ⟨c, hc⟩ := exists_of_isOk hok
  obtain ⟨_, _, htracks⟩ := (fades_of_check hcheck).2 _ _ _ hc
  obtain ⟨n, hn, houtputs, hfades, _⟩ := htracks 0 swell rfl
  refine ⟨summary, c, hcheck, hc, n, hn, houtputs, ?_⟩
  rw [hfades (by decide +kernel) (by decide +kernel)]
  decide +kernel

/-- A millisecond of music at four times its speed, faded for half a second at either end. -/
def blink : AudioTrack :=
  ⟨"t1", some "/uploads/music.mp3", none, 0, 1, 0, none, 1, 500, 500, 4, "music"⟩

/-- Not every track that passes the check is as long as its fades, and the one at its end does not
always go until its end. -/
theorem blink_shorter_than_fades : (∃ summary, (filmWith blink).check = .ok summary) ∧
    blink.outputDuration.toInt < blink.fadeIn.toInt + blink.fadeOut.toInt ∧
    blink.outputDuration.toInt - blink.fadeOut.toInt = -500 ∧
    ∃ c, (filmWith blink).compile .serverFfmpeg "film.mp4" = .ok c ∧
      ∃ n ∈ readGraph c.graph, n.outputs = ["a0"] ∧
        n.fades = [some ⟨"in", 0, 1 / 2⟩, some ⟨"out", 0, 1 / 2⟩] := by
  have hpassed : (filmWith blink).check.isOk = true := by decide +kernel
  have hok : ((filmWith blink).compile .serverFfmpeg "film.mp4").isOk = true := by decide +kernel
  obtain ⟨c, hc⟩ := exists_of_isOk hok
  obtain ⟨g, s, _, _, _, _, _, hread⟩ := read_of_compile hc
  obtain ⟨n, hn, houtputs, hfades⟩ := s.exists_track (j := 0) (t := blink) rfl
  refine ⟨exists_of_isOk hpassed, by decide +kernel, by decide +kernel, c, hc, n, hread ▸ hn,
    houtputs, ?_⟩
  rw [hfades, AudioTrack.fadesOf_chain]
  decide +kernel

end Plan

end RenderGateway
