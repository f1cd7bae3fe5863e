import Mathlib.Algebra.Order.BigOperators.Group.List
import RenderGateway.Proofs.Graph.Sections
import RenderGateway.Proofs.Number.Sign
import RenderGateway.Proofs.Plan.Timeline

/-!
# Plans that compile

A plan compiles exactly if its base has a length, all its items have assets and its texts stay in
their places. The check of a plan asks for all of this but the length: it lets a segment be a
millisecond shorter than its window plays, and a window may play for less than half a millisecond.
`compile_of_check` says that this is the only way in which a checked plan fails to compile, as long
as the length of its base is a word.
-/

namespace RenderGateway

namespace Graph

section Streams

variable {α : Type} {asset? : α → Option String} {missing : α → CompileError}
  {node : α → Nat → Nat → Node}

/-- Items that each read an asset have nodes exactly if all of them have assets. -/
theorem exists_streamNodes_iff {inputs : List String} {index : Nat} {items : List α} :
    (∃ r, streamNodes asset? missing node inputs index items = .ok r) ↔
      ∀ a ∈ items, (asset? a).isSome = true := by
  induction items generalizing inputs index with
  | nil => simp [streamNodes]
  | cons a rest ih =>
    rw [List.forall_mem_cons]
    constructor
    · rintro ⟨⟨final, nodes⟩, h⟩
      obtain ⟨asset, tail, ha, hrest, _⟩ := streamNodes_cons_ok h
      exact ⟨by simp [ha], ih.1 ⟨_, hrest⟩⟩
    · rintro ⟨ha, hrest⟩
      obtain ⟨asset, ha⟩ := Option.isSome_iff_exists.1 ha
      obtain ⟨⟨final, tail⟩, htail⟩ := ih.2 hrest
      rw [streamNodes, ha]
      dsimp only
      rw [htail]
      exact ⟨_, rfl⟩

end Streams

theorem exists_joinBase {labels : List Label} (h : labels ≠ []) :
    ∃ r, joinBase labels = .ok r := by
  match labels, h with
  | [l], _ => exact ⟨_, rfl⟩
  | _ :: _ :: _, _ => exact ⟨_, rfl⟩

theorem syntaxError?_eq_none_iff {texts : List TextOverlay} :
    syntaxError? texts = none ↔ ∀ o ∈ texts, o.syntaxIssues = [] := by
  simp [syntaxError?]

theorem mem_orderedTexts {p : Plan} {o : TextOverlay} :
    o ∈ orderedTexts p ↔ o ∈ p.textOverlays := (List.mergeSort_perm _ _).mem_iff

theorem baseLabels_ne_nil {p : Plan} (h : p.baseSegments ≠ []) : baseLabels p ≠ [] := by
  obtain ⟨s, hs⟩ := List.exists_mem_of_ne_nil _ h
  obtain ⟨hmem, hbase⟩ := List.mem_filter.1 hs
  obtain ⟨i, hi⟩ := List.getElem?_of_mem hmem
  refine List.ne_nil_of_mem (a := Label.segment i) (List.mem_map.2 ⟨(s, i), ?_, rfl⟩)
  exact List.mem_filter.2 ⟨List.mem_zipIdx_iff_getElem?.2 hi, hbase⟩

end Graph

namespace Plan

open RenderGateway.Graph

variable {p : Plan}

theorem joinedDuration_nonneg (p : Plan) : 0 ≤ p.joinedDuration :=
  List.sum_nonneg (l := p.baseSegments.map fun s => max 0 s.outputDuration.toInt) (by simp)

theorem outputDuration_eq (h : p.joinedDuration < 2 ^ 63) :
    p.outputDuration = p.joinedDuration := by
  have hnonneg := p.joinedDuration_nonneg
  exact Word.wrap_eq_self (by omega) h

theorem joinedDuration_pos_iff :
    0 < p.joinedDuration ↔ ∃ s ∈ p.baseSegments, 0 < s.outputDuration.toInt := by
  unfold joinedDuration
  induction p.baseSegments with
  | nil => simp
  | cons s rest ih =>
    have hrest : 0 ≤ (rest.map fun s => max 0 s.outputDuration.toInt).foldr (· + ·) 0 :=
      List.sum_nonneg (l := rest.map fun s => max 0 s.outputDuration.toInt) (by simp)
    rw [List.map_cons, List.foldr_cons, List.exists_mem_cons_iff, ← ih]
    omega

/-- A plan has a graph exactly if its base has a length, its segments and tracks have assets and
its texts stay in their places. -/
theorem exists_graph_iff : (∃ g, Graph.ofPlan p = .ok g) ↔
    0 < p.outputDuration ∧ (∀ s ∈ p.timeline, (p.segmentAsset s).isSome = true) ∧
      (∀ o ∈ p.textOverlays, o.syntaxIssues = []) ∧
      ∀ t ∈ p.audioTracks, (p.audioAsset t).isSome = true := by
  constructor
  · rintro ⟨g, hg⟩
    obtain ⟨s, _⟩ := ofPlan_ok hg
    exact ⟨s.duration_pos, exists_streamNodes_iff.1 ⟨_, s.segments_eq⟩,
      fun o ho => syntaxError?_eq_none_iff.1 s.syntax_eq o (mem_orderedTexts.2 ho),
      exists_streamNodes_iff.1 ⟨_, s.tracks_eq⟩⟩
  · rintro ⟨hduration, hsegments, htexts, htracks⟩
    have hbase : p.baseSegments ≠ [] := by
      intro hnil
      rw [outputDuration, joinedDuration, hnil] at hduration
      exact absurd hduration (by decide)
    have hnone : syntaxError? (orderedTexts p) = none :=
      syntaxError?_eq_none_iff.2 fun o ho => htexts o (mem_orderedTexts.1 ho)
    obtain ⟨⟨inputs, segments⟩, hs⟩ : ∃ r, segmentNodes p [] 0 p.timeline = .ok r :=
      exists_streamNodes_iff.2 hsegments
    obtain ⟨⟨bottom, join⟩, hj⟩ := exists_joinBase (baseLabels_ne_nil hbase)
    obtain ⟨⟨final, tracks⟩, ht⟩ : ∃ r, trackNodes p inputs 0 p.audioTracks = .ok r :=
      exists_streamNodes_iff.2 htracks
    simp only [Graph.ofPlan, if_neg (Int.not_le.2 hduration), hs, hj, hnone, ht, bind_ok_eq]
    exact ⟨_, rfl⟩

theorem exists_compile_iff {engine : Engine} {output : String}
    (hengine : engine = .serverFfmpeg ∨ engine = .planExport) :
    (∃ c, p.compile engine output = .ok c) ↔ ∃ g, Graph.ofPlan p = .ok g := by
  constructor
  · rintro ⟨c, hc⟩
    obtain ⟨g, hg, _⟩ := compile_ok hc
    exact ⟨g, hg⟩
  · rintro ⟨g, hg⟩
    have hcommand : ∃ c, p.command output = .ok c := by
      rw [command, hg]
      exact ⟨_, rfl⟩
    rcases hengine with rfl | rfl <;> exact hcommand

/-- A plan whose base has no length is told so. -/
theorem compile_eq_error {engine : Engine} {output : String}
    (hengine : engine = .serverFfmpeg ∨ engine = .planExport) (h : p.outputDuration ≤ 0) :
    p.compile engine output = .error (.planNotCompilable "plan has no base-layer duration") := by
  have hcommand :
      p.command output = .error (.planNotCompilable "plan has no base-layer duration") := by
    rw [command, Graph.ofPlan, if_pos h]
    rfl
  rcases hengine with rfl | rfl <;> exact hcommand

/-- A segment without a length on the timeline plays its window in a millisecond at most. -/
theorem Valid.played_le {s : Segment} (h : Valid .exact p) (hs : s ∈ p.baseSegments)
    (hlength : s.outputDuration.toInt ≤ 0) :
    (playedDuration s.trimStart s.trimEnd s.speed).toInt ≤ 1 ∧ -1 ≤ s.outputDuration.toInt := by
  have hvalid := h.segments s (List.mem_of_mem_filter hs)
  have hplayed := playedDuration_nonneg hvalid.trimStart_nonneg (Int.le_of_lt hvalid.trim_lt)
    hvalid.speed_pos
  have hnear := near_exact_iff.1 hvalid.duration
  omega

/-- A checked plan compiles exactly if its output has a length, and is told so otherwise. If the
length of its base is a word, this is so exactly if one of the base segments has a length. One that
has none plays its window in a millisecond at most, if the check stays within words. -/
theorem compile_of_check {summary : PlanSummary} (hcheck : p.check = .ok summary) {engine : Engine}
    (hengine : engine = .serverFfmpeg ∨ engine = .planExport) (output : String) :
    ((∃ c, p.compile engine output = .ok c) ↔ 0 < p.outputDuration) ∧
    (p.outputDuration ≤ 0 →
      p.compile engine output = .error (.planNotCompilable "plan has no base-layer duration")) ∧
    (p.joinedDuration < 2 ^ 63 →
      (0 < p.outputDuration ↔ ∃ s ∈ p.baseSegments, 0 < s.outputDuration.toInt)) ∧
    (p.FitsWords → ∀ s ∈ p.baseSegments, s.outputDuration.toInt ≤ 0 →
      (playedDuration s.trimStart s.trimEnd s.speed).toInt ≤ 1 ∧ -1 ≤ s.outputDuration.toInt) := by
  have hvalid : p.Valid .words := (check_eq_ok_iff.1 hcheck).1
  refine ⟨?_, compile_eq_error hengine, fun hword => ?_, fun hfits s hs => ?_⟩
  · rw [exists_compile_iff hengine, exists_graph_iff]
    exact ⟨fun h => h.1, fun hduration => ⟨hduration, fun s hs => (hvalid.segments s hs).resolves,
      fun o ho => TextOverlay.syntaxIssues_eq_nil_iff.2 (hvalid.texts o ho).syntaxValid,
      fun t ht => (hvalid.tracks t ht).resolves⟩⟩
  · rw [outputDuration_eq hword, joinedDuration_pos_iff]
  · exact ((valid_words_iff hfits).1 hvalid).played_le hs

/-- A millisecond of a file at four times its speed, which has no length. -/
def instant : Plan where
  id := "instant"
  projectId := none
  defaultUrl := none
  sources := []
  format := OutputFormat.ofSize 640 360
  timeline := [⟨"s1", none, none, some "a.mp4", 0, 1, none, 0, 0, 0, 4, "video", 0, [], none⟩]
  audioTracks := []
  textOverlays := []
  summary := none

/-- Not every plan that passes the check compiles. -/
theorem check_instant_compile_error : (∃ summary, instant.check = .ok summary) ∧
    instant.compile .serverFfmpeg "out.mp4" =
      .error (.planNotCompilable "plan has no base-layer duration") := by
  have hcheck : instant.check.isOk = true := by decide +kernel
  exact ⟨exists_of_isOk hcheck, by decide +kernel⟩

/-- The same millisecond at its own speed. -/
def moment : Plan :=
  { instant with
    timeline := [⟨"s1", none, none, some "a.mp4", 0, 1, none, 0, 1, 1, 1, "video", 0, [], none⟩] }

theorem compile_of_moment : ∃ summary c, moment.check = .ok summary ∧
    moment.compile .planExport "out.mp4" = .ok c := by
  have hcheck : moment.check.isOk = true := by decide +kernel
  obtain ⟨summary, hsummary⟩ := exists_of_isOk hcheck
  obtain ⟨hcompiles, _, hlength, _⟩ := compile_of_check hsummary (.inr rfl) "out.mp4"
  obtain ⟨c, hc⟩ := hcompiles.2 ((hlength (by decide +kernel)).2 (by decide +kernel))
  exact ⟨summary, c, hsummary, hc⟩

end Plan

end RenderGateway
