import Mathlib.Data.List.Basic
import Mathlib.Data.List.Induction
import RenderGateway.Plan.Asset

/-!
# Assets of localized plans

A localized plan resolves every item to the place of its asset, provided that no
place is blank; an item without an asset still has none. All the rest of the
plan is as it was.
-/

namespace RenderGateway.Plan

theorem mem_distinct_foldl {α : Type} [DecidableEq α] (as seen : List α) (a : α) :
    a ∈ as.foldl (fun seen a => if a ∈ seen then seen else seen ++ [a]) seen ↔
      a ∈ seen ∨ a ∈ as := by
  induction as generalizing seen with
  | nil => simp
  | cons b as ih =>
    rw [List.foldl_cons, ih]
    by_cases hb : b ∈ seen
    · by_cases hab : a = b
      · simp [hab, hb]
      · simp [hab, hb]
    · simp [hb, or_assoc]

theorem mem_distinct {α : Type} [DecidableEq α] {as : List α} {a : α} :
    a ∈ distinct as ↔ a ∈ as := by
  rw [distinct, mem_distinct_foldl]
  simp

theorem nodup_distinct_foldl {α : Type} [DecidableEq α] (as : List α) {seen : List α}
    (h : seen.Nodup) :
    (as.foldl (fun seen a => if a ∈ seen then seen else seen ++ [a]) seen).Nodup := by
  induction as generalizing seen with
  | nil => exact h
  | cons b as ih =>
    rw [List.foldl_cons]
    apply ih
    by_cases hb : b ∈ seen
    · rwa [if_pos hb]
    · rw [if_neg hb]
      exact List.nodup_append.2 ⟨h, by simp, fun a ha c hc => by
        rintro rfl
        exact hb (List.mem_singleton.1 hc ▸ ha)⟩

theorem nodup_assetUrls (p : Plan) : p.assetUrls.Nodup := nodup_distinct_foldl _ List.nodup_nil

theorem distinct_concat {α : Type} [DecidableEq α] (as : List α) (a : α) :
    distinct (as ++ [a]) = if a ∈ as then distinct as else distinct as ++ [a] := by
  rw [distinct, List.foldl_append]
  change (if a ∈ distinct as then distinct as else distinct as ++ [a]) = _
  simp only [mem_distinct]

/-- Whether an element is repeated before or after all of them are replaced is the same. -/
theorem distinct_map_distinct {α β : Type} [DecidableEq α] [DecidableEq β] (f : α → β)
    (as : List α) : distinct ((distinct as).map f) = distinct (as.map f) := by
  induction as using List.reverseRecOn with
  | nil => rfl
  | append_singleton as a ih =>
    rw [List.map_append, List.map_singleton, distinct_concat, distinct_concat]
    by_cases ha : a ∈ as
    · rw [if_pos ha, if_pos (List.mem_map_of_mem ha), ih]
    · have hmem : f a ∈ (distinct as).map f ↔ f a ∈ as.map f := by
        simp only [List.mem_map, mem_distinct]
      rw [if_neg ha, List.map_append, List.map_singleton, distinct_concat, ih]
      simp only [hmem]

variable {p : Plan} {paths : String → Option String}

theorem segmentAsset_mem {s : Segment} {url : String} (hs : s ∈ p.timeline)
    (h : p.segmentAsset s = some url) : url ∈ p.assetUrls :=
  mem_distinct.2 (List.mem_append_left _ (List.mem_filterMap.2 ⟨s, hs, h⟩))

theorem audioAsset_mem {t : AudioTrack} {url : String} (ht : t ∈ p.audioTracks)
    (h : p.audioAsset t = some url) : url ∈ p.assetUrls :=
  mem_distinct.2 (List.mem_append_right _ (List.mem_filterMap.2 ⟨t, ht, h⟩))

/-- A segment with its asset pinned. -/
def localSegment (p : Plan) (paths : String → Option String) (s : Segment) : Segment :=
  match p.segmentAsset s with
  | some url => { s with assetUrl := some (pinned paths url) }
  | none => s

/-- A track with its asset pinned. -/
def localTrack (p : Plan) (paths : String → Option String) (t : AudioTrack) : AudioTrack :=
  match p.audioAsset t with
  | some url => { t with assetUrl := some (pinned paths url) }
  | none => t

theorem timeline_localized :
    (p.localized paths).timeline = p.timeline.map (p.localSegment paths) := rfl

theorem audioTracks_localized :
    (p.localized paths).audioTracks = p.audioTracks.map (p.localTrack paths) := rfl

theorem localSegment_eq (s : Segment) :
    p.localSegment paths s = { s with assetUrl := (p.localSegment paths s).assetUrl } := by
  unfold localSegment
  cases p.segmentAsset s <;> rfl

theorem localTrack_eq (t : AudioTrack) :
    p.localTrack paths t = { t with assetUrl := (p.localTrack paths t).assetUrl } := by
  unfold localTrack
  cases p.audioAsset t <;> rfl

/-- An asset of the plan has a place that can be named. -/
def Placeable (p : Plan) (paths : String → Option String) : Prop :=
  ∀ url ∈ p.assetUrls, Text.isBlankText (pinned paths url) = false

theorem resolveAsset_of_present {url : String} (h : Text.isBlankText url = false)
    (sourceId : Option String) : p.resolveAsset (some url) sourceId = some url := by
  have hp : present (some url) = some url := by simp [present, Option.filter, h]
  simp only [resolveAsset, hp]

/-- An item with a pinned asset resolves to the asset's place, any other one to nothing still. -/
theorem resolveAsset_localized (h : p.Placeable paths) {own sourceId : Option String}
    (hmem : ∀ url, p.resolveAsset own sourceId = some url → url ∈ p.assetUrls) :
    (p.localized paths).resolveAsset
        ((p.resolveAsset own sourceId).elim own fun url => some (pinned paths url)) sourceId =
      (p.resolveAsset own sourceId).map (pinned paths) := by
  cases ha : p.resolveAsset own sourceId with
  | none => exact ha
  | some url => exact resolveAsset_of_present (h url (hmem url ha)) sourceId

theorem segmentAsset_localized (h : p.Placeable paths) {s : Segment} (hs : s ∈ p.timeline) :
    (p.localized paths).segmentAsset (p.localSegment paths s) =
      (p.segmentAsset s).map (pinned paths) := by
  have hurl : (p.localSegment paths s).assetUrl =
      (p.segmentAsset s).elim s.assetUrl fun url => some (pinned paths url) := by
    unfold localSegment
    cases p.segmentAsset s <;> rfl
  have hid : (p.localSegment paths s).sourceId = s.sourceId := by rw [localSegment_eq]
  rw [segmentAsset, hurl, hid]
  exact resolveAsset_localized h fun url => segmentAsset_mem hs

theorem audioAsset_localized (h : p.Placeable paths) {t : AudioTrack} (ht : t ∈ p.audioTracks) :
    (p.localized paths).audioAsset (p.localTrack paths t) =
      (p.audioAsset t).map (pinned paths) := by
  have hurl : (p.localTrack paths t).assetUrl =
      (p.audioAsset t).elim t.assetUrl fun url => some (pinned paths url) := by
    unfold localTrack
    cases p.audioAsset t <;> rfl
  have hid : (p.localTrack paths t).sourceId = t.sourceId := by rw [localTrack_eq]
  rw [audioAsset, hurl, hid]
  exact resolveAsset_localized h fun url => audioAsset_mem ht

/-- The assets of a localized plan are the places of the assets, each once. -/
theorem assetUrls_localized (h : p.Placeable paths) :
    (p.localized paths).assetUrls = distinct (p.assetUrls.map (pinned paths)) := by
  have hsegments : (p.localized paths).timeline.filterMap (p.localized paths).segmentAsset =
      (p.timeline.filterMap p.segmentAsset).map (pinned paths) := by
    rw [timeline_localized, List.filterMap_map, List.map_filterMap]
    exact List.filterMap_congr fun s hs => segmentAsset_localized h hs
  have htracks : (p.localized paths).audioTracks.filterMap (p.localized paths).audioAsset =
      (p.audioTracks.filterMap p.audioAsset).map (pinned paths) := by
    rw [audioTracks_localized, List.filterMap_map, List.map_filterMap]
    exact List.filterMap_congr fun t ht => audioAsset_localized h ht
  rw [assetUrls, hsegments, htracks, ← List.map_append, assetUrls, distinct_map_distinct]

end RenderGateway.Plan
