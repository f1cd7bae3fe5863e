import RenderGateway.Proofs.Plan.Validity

/-!
# Valid timelines

The check walks the timeline once and holds a segment against the nearest earlier segment and the
nearest one of its lane only. Segments that have passed are in order and every lane is free of
overlaps, so this is as good as holding the segment against all earlier ones:
`issues_eq_nil_iff` is the step and `timelineIssuesFrom_eq_nil_iff` the walk. Together with the
valid parts of a plan they give `check_ok_iff`.
-/

namespace RenderGateway

open Issue (report_eq_nil_iff)

namespace Segment

theorem sameLane_iff {s t : Segment} :
    s.sameLane t = true ↔ s.track = t.track ∧ s.layer = t.layer := by
  simp [sameLane]

/-- What is asked of a segment and one behind it in the list. -/
structure Precedes (s t : Segment) : Prop where
  id_ne : s.id ≠ t.id
  start_le : s.timelineStart.toInt ≤ t.timelineStart.toInt
  end_le : s.track = t.track → s.layer = t.layer →
    s.timelineEnd.toInt ≤ t.timelineStart.toInt

variable {s : Segment} {earlier : List Segment}

theorem duplicateOf?_eq_none_iff : s.duplicateOf? earlier = none ↔ ∀ t ∈ earlier, t.id ≠ s.id := by
  simp [duplicateOf?, List.findIdx?_eq_none_iff]

theorem orderIssues_eq_nil_iff {path : String → String} : s.orderIssues earlier path = [] ↔
    (∀ last, earlier.head? = some last → last.timelineStart.toInt ≤ s.timelineStart.toInt) ∧
      ∀ t, earlier.find? (fun t => s.sameLane t) = some t →
        t.timelineEnd.toInt ≤ s.timelineStart.toInt := by
  unfold orderIssues
  rw [List.append_eq_nil_iff]
  refine and_congr ?_ ?_
  · cases earlier.head? <;> simp
  · cases earlier.find? (fun t => s.sameLane t) <;> simp

/-- Nothing is reported of the place of a segment exactly if all earlier segments precede it,
where the earlier ones, the nearest first, already are in their places. -/
theorem precedes_iff (hearlier : earlier.Pairwise fun s t => t.Precedes s) :
    (∀ t ∈ earlier, t.Precedes s) ↔
      (∀ t ∈ earlier, t.id ≠ s.id) ∧
      (∀ last, earlier.head? = some last → last.timelineStart.toInt ≤ s.timelineStart.toInt) ∧
      ∀ t, earlier.find? (fun t => s.sameLane t) = some t →
        t.timelineEnd.toInt ≤ s.timelineStart.toInt := by
  constructor
  · intro h
    refine ⟨fun t ht => (h t ht).id_ne, fun last hlast => (h last ?_).start_le, fun t ht => ?_⟩
    · exact List.mem_of_mem_head? hlast
    · obtain ⟨htrack, hlayer⟩ := sameLane_iff.1 (List.find?_some ht)
      exact (h t (List.mem_of_find?_eq_some ht)).end_le htrack.symm hlayer.symm
  · rintro ⟨hid, hhead, hlane⟩ t ht
    have hstart (t : Segment) (ht : t ∈ earlier) :
        t.timelineStart.toInt ≤ s.timelineStart.toInt := by
      cases earlier with
      | nil => cases ht
      | cons last older =>
        have hlast := hhead last rfl
        rcases List.mem_cons.1 ht with rfl | holder
        · exact hlast
        · exact Int.le_trans (List.rel_of_pairwise_cons hearlier holder).start_le hlast
    refine ⟨hid t ht, hstart t ht, fun htrack hlayer => ?_⟩
    have hsame : s.sameLane t = true := sameLane_iff.2 ⟨htrack.symm, hlayer.symm⟩
    cases hfind : earlier.find? (fun t => s.sameLane t) with
    | none => exact absurd hsame (List.find?_eq_none.1 hfind t ht)
    | some nearest =>
      have hnearest := hlane nearest hfind
      -- The nearest of the lane is `t`, or `t` ends before it begins.
      obtain ⟨hsame', newer, older, rfl, hnewer⟩ := List.find?_eq_some_iff_append.1 hfind
      obtain ⟨htrack', hlayer'⟩ := sameLane_iff.1 hsame'
      rcases List.mem_append.1 ht with hmem | hmem
      · have := hnewer t hmem
        simp [hsame] at this
      · rcases List.mem_cons.1 hmem with rfl | hmem
        · exact hnearest
        · have hbefore := List.rel_of_pairwise_cons (List.pairwise_append.1 hearlier).2.1 hmem
          exact Int.le_trans (hbefore.end_le (htrack.trans htrack') (hlayer.trans hlayer'))
            (hstart nearest (by simp))

/-- A segment is passed exactly if it is valid and all earlier segments precede it. -/
theorem issues_eq_nil_iff {p : Plan} (hearlier : earlier.Pairwise fun s t => t.Precedes s) :
    s.issues p earlier = [] ↔ s.Valid .words p ∧ ∀ t ∈ earlier, t.Precedes s := by
  rw [precedes_iff hearlier, ← duplicateOf?_eq_none_iff]
  unfold issues
  simp only [List.append_eq_nil_iff, report_eq_nil_iff, trimIssues_eq_nil_iff,
    speedIssues_eq_nil_iff, windowIssues_eq_nil_iff, orderIssues_eq_nil_iff,
    transitionIssues_eq_nil_iff, Option.isNone_eq_false_iff]
  cases s.duplicateOf? earlier with
  | some i => exact iff_of_false (by simp) (by simp)
  | none =>
    constructor
    · rintro ⟨⟨⟨⟨⟨⟨-, hasset⟩, htrim, hlt, hle⟩, ⟨hpos, hspeed⟩, hduration⟩, hstart, hwindow⟩,
        horder⟩, htransition⟩
      exact ⟨⟨hasset, htrim, hlt, hle, hpos, hspeed, hduration hlt, hstart, hwindow, htransition⟩,
        rfl, horder⟩
    · rintro ⟨h, -, horder⟩
      exact ⟨⟨⟨⟨⟨⟨rfl, h.resolves⟩, h.trimStart_nonneg, h.trim_lt, h.trimEnd_le⟩,
        ⟨h.speed_pos, h.speed_le⟩, fun _ => h.duration⟩, h.timelineStart_nonneg, h.window⟩,
        horder⟩, h.transition⟩

end Segment

namespace Plan

/-- A plan that can be rendered. -/
structure Valid (r : Arithmetic) (p : Plan) : Prop where
  format : p.format.Valid
  base : ∃ s ∈ p.timeline, s.layer = 0
  ids : (p.timeline.map Segment.id).Nodup
  segments : ∀ s ∈ p.timeline, s.Valid r p
  ordered : p.timeline.Pairwise fun s t => s.timelineStart.toInt ≤ t.timelineStart.toInt
  lanes : p.timeline.Pairwise fun s t => s.track = t.track → s.layer = t.layer →
    s.timelineEnd.toInt ≤ t.timelineStart.toInt
  tracks : ∀ t ∈ p.audioTracks, t.Valid r p
  texts : ∀ o ∈ p.textOverlays, o.Valid

/-- The sums and distances that the check takes are words. -/
structure FitsWords (p : Plan) : Prop where
  segments : ∀ s ∈ p.timeline, s.FitsWords
  tracks : ∀ t ∈ p.audioTracks, t.FitsWords

variable {p : Plan}

theorem valid_words_iff (h : p.FitsWords) : p.Valid .words ↔ p.Valid .exact := by
  have hsegments : (∀ s ∈ p.timeline, s.Valid .words p) ↔ ∀ s ∈ p.timeline, s.Valid .exact p :=
    forall₂_congr fun s hs => Segment.valid_words_iff (h.segments s hs)
  have htracks : (∀ t ∈ p.audioTracks, t.Valid .words p) ↔
      ∀ t ∈ p.audioTracks, t.Valid .exact p :=
    forall₂_congr fun t ht => AudioTrack.valid_words_iff (h.tracks t ht)
  constructor
  · intro hvalid
    exact { hvalid with
      segments := hsegments.1 hvalid.segments
      tracks := htracks.1 hvalid.tracks }
  · intro hvalid
    exact { hvalid with
      segments := hsegments.2 hvalid.segments
      tracks := htracks.2 hvalid.tracks }

theorem timelineIssuesFrom_eq_nil_iff {earlier rest : List Segment}
    (hearlier : earlier.Pairwise fun s t => t.Precedes s) :
    p.timelineIssuesFrom earlier rest = [] ↔
      (∀ s ∈ rest, s.Valid .words p) ∧ (earlier.reverse ++ rest).Pairwise Segment.Precedes := by
  induction rest generalizing earlier with
  | nil => simp [timelineIssuesFrom, List.pairwise_reverse, hearlier]
  | cons s rest ih =>
    have hmove : earlier.reverse ++ s :: rest = (s :: earlier).reverse ++ rest := by simp
    rw [timelineIssuesFrom, List.append_eq_nil_iff, Segment.issues_eq_nil_iff hearlier,
      List.forall_mem_cons, hmove]
    constructor
    · rintro ⟨⟨hvalid, hprecedes⟩, hrest⟩
      obtain ⟨hvalids, hpairwise⟩ := (ih (List.pairwise_cons.2 ⟨hprecedes, hearlier⟩)).1 hrest
      exact ⟨⟨hvalid, hvalids⟩, hpairwise⟩
    · rintro ⟨⟨hvalid, hvalids⟩, hpairwise⟩
      have hnext := List.pairwise_reverse.1 (List.pairwise_append.1 hpairwise).1
      exact ⟨⟨hvalid, fun t ht => List.rel_of_pairwise_cons hnext ht⟩,
        (ih hnext).2 ⟨hvalids, hpairwise⟩⟩

theorem pairwise_precedes_iff : p.timeline.Pairwise Segment.Precedes ↔
    (p.timeline.map Segment.id).Nodup ∧
    (p.timeline.Pairwise fun s t => s.timelineStart.toInt ≤ t.timelineStart.toInt) ∧
    p.timeline.Pairwise fun s t => s.track = t.track → s.layer = t.layer →
      s.timelineEnd.toInt ≤ t.timelineStart.toInt := by
  rw [List.Nodup, List.pairwise_map, ← List.pairwise_and_iff, ← List.pairwise_and_iff]
  exact List.Pairwise.iff fun _ _ =>
    ⟨fun h => ⟨h.id_ne, h.start_le, h.end_le⟩, fun ⟨hid, hstart, hend⟩ => ⟨hid, hstart, hend⟩⟩

/-- What is found item by item is nothing exactly if nothing is found at any item. -/
theorem flatten_mapIdx_eq_nil_iff {α β : Type} {f : Nat → α → List β} {motive : α → Prop}
    (h : ∀ i a, f i a = [] ↔ motive a) {items : List α} :
    (items.mapIdx f).flatten = [] ↔ ∀ a ∈ items, motive a := by
  induction items generalizing f with
  | nil => simp
  | cons a items ih => simp [List.mapIdx_cons, h, ih fun i a => h (i + 1) a]

theorem issues_eq_nil_iff : p.issues = [] ↔ p.Valid .words := by
  have hbase : p.baseSegments.isEmpty = false ↔ ∃ s ∈ p.timeline, s.layer = 0 := by
    simp [baseSegments, Segment.isBase]
  have htrack (i : Nat) (t : AudioTrack) : t.issues p i = [] ↔ t.Valid .words p :=
    AudioTrack.issues_eq_nil_iff
  have htext (i : Nat) (o : TextOverlay) : o.issues i = [] ↔ o.Valid :=
    TextOverlay.issues_eq_nil_iff
  unfold issues
  rw [List.append_eq_nil_iff, List.append_eq_nil_iff, List.append_eq_nil_iff,
    List.append_eq_nil_iff, OutputFormat.issues_eq_nil_iff, report_eq_nil_iff, hbase,
    timelineIssuesFrom_eq_nil_iff List.Pairwise.nil, List.reverse_nil, List.nil_append,
    pairwise_precedes_iff, flatten_mapIdx_eq_nil_iff htrack, flatten_mapIdx_eq_nil_iff htext]
  constructor
  · rintro ⟨⟨⟨⟨hformat, hone⟩, hsegments, hids, hordered, hlanes⟩, htracks⟩, htexts⟩
    exact ⟨hformat, hone, hids, hsegments, hordered, hlanes, htracks, htexts⟩
  · intro h
    exact ⟨⟨⟨⟨h.format, h.base⟩, h.segments, h.ids, h.ordered, h.lanes⟩, h.tracks⟩, h.texts⟩

theorem check_eq_ok_iff {summary : PlanSummary} :
    p.check = .ok summary ↔ p.Valid .words ∧ summary = p.summarize := by
  rw [← issues_eq_nil_iff]
  unfold check
  cases p.issues <;> simp [eq_comm]

/-- A plan is passed exactly if it is valid in the arithmetic of words. Where its sums and distances
are words, this is the exact arithmetic. In a valid plan no lane has two segments that share some of
the timeline. -/
theorem check_ok_iff (p : Plan) :
    ((∃ summary, p.check = .ok summary) ↔ p.Valid .words) ∧
      (p.FitsWords → ((∃ summary, p.check = .ok summary) ↔ p.Valid .exact)) ∧
      ∀ r, p.Valid r → p.timeline.Pairwise fun s t =>
        s.track = t.track → s.layer = t.layer → s.overlaps t = false := by
  have hwords : (∃ summary, p.check = .ok summary) ↔ p.Valid .words := by simp [check_eq_ok_iff]
  refine ⟨hwords, fun hfits => hwords.trans (valid_words_iff hfits), fun r h => ?_⟩
  refine h.lanes.imp fun hlane htrack hlayer => ?_
  have hend := hlane htrack hlayer
  simp only [Segment.overlaps, Bool.and_eq_false_iff, decide_eq_false_iff_not, Int.not_lt]
  exact .inr hend

/-- A film of one shot. -/
def singleShot : Plan where
  id := "single"
  projectId := none
  defaultUrl := some "/uploads/a.mp4"
  sources := []
  format := OutputFormat.ofSize 640 360
  timeline := [⟨"s1", none, none, none, 0, 1000, none, 0, 500, 500, 2, "video", 0, [], none⟩]
  audioTracks := []
  textOverlays := []
  summary := none

theorem check_ok_of_singleShot : singleShot.FitsWords ∧ singleShot.Valid .exact ∧
    ∃ summary, singleShot.check = .ok summary := by
  have hfits : singleShot.FitsWords := by
    constructor
    · intro s hs
      obtain rfl := List.mem_singleton.1 hs
      exact ⟨fun _ _ _ => by decide +kernel, by decide +kernel⟩
    · intro t ht
      cases ht
  have hissues : singleShot.issues = [] := by decide +kernel
  have hcheck := (check_ok_iff singleShot).1.2 (issues_eq_nil_iff.1 hissues)
  exact ⟨hfits, ((check_ok_iff singleShot).2.1 hfits).1 hcheck, hcheck⟩

end Plan

end RenderGateway
