import Mathlib.Data.List.Chain
import RenderGateway.Proofs.Plan.Timeline

/-!
# Base segments and the time they are joined at

Texts, layers and sound are placed by the time of the timeline, while the base segments are joined
and so begin where the ones before them end. The check warns of a base segment that begins after
the one before it has ended. It says nothing of one that begins earlier, as neighbours on different
tracks may share time. A segment therefore begins where it is joined, less the time that the
neighbours before it share, within a millisecond for each of them.
-/

namespace RenderGateway

namespace Segment

/-- A base segment is warned of if it begins after the last one before it has ended. -/
theorem warnings_eq_nil_iff {earlier : List Segment} {s : Segment} :
    s.warnings earlier = [] ↔ (s.isBase = true → ∀ t, earlier.find? (fun t => t.isBase) = some t →
      s.timelineStart.toInt ≤ t.timelineEnd.toInt) := by
  unfold warnings
  cases s.isBase with
  | false => simp
  | true => cases earlier.find? (fun t => t.isBase) <;> simp

/-- There is no time between a segment and the next one. -/
def Reaches (s t : Segment) : Prop := t.timelineStart.toInt ≤ s.timelineEnd.toInt

/-- The length of the first `k` segments, one after the other. -/
def joinedTime (segments : List Segment) (k : Nat) : Int :=
  ((segments.take k).map fun s => s.outputDuration.toInt).foldr (· + ·) 0

/-- The time that the first `k` segments share, each with the one after it. -/
def sharedTime : List Segment → Nat → Int
  | s :: t :: rest, k + 1 =>
    (s.timelineEnd.toInt - t.timelineStart.toInt) + sharedTime (t :: rest) k
  | _, _ => 0

variable {segments : List Segment} {k : Nat}

theorem joinedTime_cons_succ (s : Segment) :
    joinedTime (s :: segments) (k + 1) = s.outputDuration.toInt + joinedTime segments k := by
  simp [joinedTime]

theorem sharedTime_nonneg (h : segments.IsChain Reaches) : 0 ≤ sharedTime segments k := by
  fun_induction sharedTime segments k with
  | case1 s t rest k ih =>
    obtain ⟨hreaches, hrest⟩ := List.isChain_cons_cons.1 h
    exact Int.add_nonneg (Int.sub_nonneg.2 hreaches) (ih hrest)
  | case2 => exact Int.le_refl 0

/-- Segments that are over before the next one begins share nothing. -/
theorem sharedTime_nonpos (h : (segments.take (k + 1)).IsChain fun s t =>
    s.timelineEnd.toInt ≤ t.timelineStart.toInt) : sharedTime segments k ≤ 0 := by
  fun_induction sharedTime segments k with
  | case1 s t rest k ih =>
    obtain ⟨hover, hrest⟩ := List.isChain_cons_cons.1 h
    have hshared := ih hrest
    omega
  | case2 => exact Int.le_refl 0

/-- Every segment may be a millisecond longer or shorter than its place on the timeline, and the
next one begins where that place ends, less what the two share. -/
theorem start_near_joined {first s : Segment}
    (hwindow : ∀ t ∈ segments.take k,
      Near .exact (t.timelineEnd.toInt - t.timelineStart.toInt) t.outputDuration.toInt)
    (hfirst : segments.head? = some first) (hs : segments[k]? = some s) :
    (s.timelineStart.toInt -
      (first.timelineStart.toInt + joinedTime segments k - sharedTime segments k)).natAbs ≤ k := by
  induction k generalizing segments first with
  | zero =>
    rw [← List.head?_eq_getElem?, hfirst] at hs
    cases hs
    simp [joinedTime, sharedTime]
  | succ k ih =>
    cases segments with
    | nil => cases hs
    | cons a rest =>
      cases hfirst
      rw [List.getElem?_cons_succ] at hs
      cases rest with
      | nil => cases hs
      | cons next rest =>
        rw [List.take_succ_cons] at hwindow
        obtain ⟨hplace, hrest⟩ := List.forall_mem_cons.1 hwindow
        have hnear := ih hrest rfl hs
        rw [joinedTime_cons_succ, sharedTime]
        rw [near_exact_iff] at hplace
        omega

end Segment

namespace Plan

open Segment (Reaches joinedTime sharedTime)

theorem timelineWarningsFrom_eq_nil_iff {earlier rest : List Segment} :
    timelineWarningsFrom earlier rest = [] ↔
      ((earlier.find? fun t => t.isBase).toList ++
        rest.filter fun t => t.isBase).IsChain Reaches := by
  induction rest generalizing earlier with
  | nil => cases earlier.find? (fun t => t.isBase) <;> simp [timelineWarningsFrom]
  | cons s rest ih =>
    rw [timelineWarningsFrom, List.append_eq_nil_iff, Segment.warnings_eq_nil_iff, ih]
    cases hbase : s.isBase with
    | false => simp [hbase]
    | true =>
      -- From here on `s` is the last base segment.
      cases earlier.find? (fun t => t.isBase) with
      | none => simp [hbase]
      | some t => simp [hbase, Reaches]

/-- Nothing is warned of exactly if every base segment reaches the next one. -/
theorem warnings_eq_nil_iff {p : Plan} : p.warnings = [] ↔ p.baseSegments.IsChain Reaches :=
  timelineWarningsFrom_eq_nil_iff

/-- Base segments of one track do not share time. -/
theorem Valid.sharedTime_nonpos {p : Plan} {r : Arithmetic} (h : p.Valid r) {k : Nat}
    {track : String}
    (htrack : ∀ t ∈ p.baseSegments.take (k + 1), t.track = track) :
    sharedTime p.baseSegments k ≤ 0 := by
  apply Segment.sharedTime_nonpos
  have hsub : List.Sublist (p.baseSegments.take (k + 1)) p.timeline :=
    (List.take_sublist _ _).trans List.filter_sublist
  refine List.Pairwise.isChain (List.Pairwise.imp_of_mem ?_ (h.lanes.sublist hsub))
  intro s t hs ht hover
  have hlayer (a : Segment) (ha : a ∈ p.baseSegments.take (k + 1)) : a.layer = 0 := by
    simpa [Segment.isBase] using List.of_mem_filter (List.mem_of_mem_take ha)
  exact hover ((htrack s hs).trans (htrack t ht).symm) ((hlayer s hs).trans (hlayer t ht).symm)

/-- In a plan that passes the check without a warning, a base segment begins where the ones before
it are joined, less the time that those share, within a millisecond for each of them. On one track
they share none. The distances that the check takes of the ones before it have to be words. -/
theorem aligned_of_check {p : Plan} {summary : PlanSummary} (hcheck : p.check = .ok summary)
    (hwarnings : summary.warnings = []) {k : Nat}
    (hfits : ∀ t ∈ p.baseSegments.take k,
      (t.timelineEnd.toInt - t.timelineStart.toInt - t.outputDuration.toInt).natAbs < 2 ^ 63)
    {first s : Segment} (hfirst : p.baseSegments.head? = some first)
    (hs : p.baseSegments[k]? = some s) :
    (s.timelineStart.toInt - (first.timelineStart.toInt + joinedTime p.baseSegments k -
        sharedTime p.baseSegments k)).natAbs ≤ k ∧
      0 ≤ sharedTime p.baseSegments k ∧
      ((∀ t ∈ p.baseSegments.take (k + 1), t.track = s.track) →
        (s.timelineStart.toInt -
          (first.timelineStart.toInt + joinedTime p.baseSegments k)).natAbs ≤ k) := by
  obtain ⟨hvalid, rfl⟩ := check_eq_ok_iff.1 hcheck
  have hwindow (t : Segment) (ht : t ∈ p.baseSegments.take k) :
      Near .exact (t.timelineEnd.toInt - t.timelineStart.toInt) t.outputDuration.toInt :=
    (near_words_iff (hfits t ht)).1
      (hvalid.segments t (List.mem_of_mem_filter (List.mem_of_mem_take ht))).window
  have hnear := Segment.start_near_joined hwindow hfirst hs
  have hnonneg : 0 ≤ sharedTime p.baseSegments k :=
    Segment.sharedTime_nonneg (warnings_eq_nil_iff.1 hwarnings)
  refine ⟨hnear, hnonneg, fun htrack => ?_⟩
  have hnonpos := hvalid.sharedTime_nonpos htrack
  omega

/-- A film of shots of one asset. -/
def filmOf (shots : List Segment) : Plan where
  id := "film"
  projectId := none
  defaultUrl := some "/uploads/a.mp4"
  sources := []
  format := OutputFormat.ofSize 640 360
  timeline := shots
  audioTracks := []
  textOverlays := []
  summary := none

/-- The first of two shots has a place that is a millisecond longer than the shot. -/
def looseCut : Plan := filmOf
  [⟨"s1", none, none, none, 0, 1000, none, 0, 1001, 1000, 1, "video", 0, [], none⟩,
   ⟨"s2", none, none, none, 0, 500, none, 1001, 1501, 500, 1, "video", 0, [], none⟩]

theorem looseCut_aligned : ∃ summary first s, looseCut.check = .ok summary ∧
    summary.warnings = [] ∧ looseCut.baseSegments.head? = some first ∧
    looseCut.baseSegments[1]? = some s ∧ s.timelineStart.toInt = 1001 ∧
    (s.timelineStart.toInt -
      (first.timelineStart.toInt + joinedTime looseCut.baseSegments 1)).natAbs ≤ 1 := by
  have hissues : looseCut.issues = [] := by decide +kernel
  have hcheck := check_eq_ok_iff.2 ⟨issues_eq_nil_iff.1 hissues, rfl⟩
  have hwarnings : looseCut.summarize.warnings = [] := by decide +kernel
  obtain ⟨_, _, haligned⟩ :=
    aligned_of_check hcheck hwarnings (k := 1) (by decide +kernel) rfl rfl
  exact ⟨_, _, _, hcheck, hwarnings, rfl, rfl, by decide +kernel, haligned (by decide +kernel)⟩

/-- Two base segments on two tracks, at the same time. -/
def twoTracks : Plan := filmOf
  [⟨"s1", none, none, none, 0, 1000, none, 0, 1000, 1000, 1, "video", 0, [], none⟩,
   ⟨"s2", none, none, none, 0, 1000, none, 0, 1000, 1000, 1, "inset", 0, [], none⟩]

/-- The second one is at the start of the timeline, but is joined after the first. -/
theorem twoTracks_not_aligned : ∃ summary, twoTracks.check = .ok summary ∧
    summary.warnings = [] ∧ ∃ k s, twoTracks.baseSegments[k]? = some s ∧
      2 * (k + 1) < (s.timelineStart.toInt - joinedTime twoTracks.baseSegments k).natAbs := by
  have hissues : twoTracks.issues = [] := by decide +kernel
  exact ⟨_, check_eq_ok_iff.2 ⟨issues_eq_nil_iff.1 hissues, rfl⟩, by decide +kernel, 1, _, rfl,
    by decide +kernel⟩

end Plan

end RenderGateway
