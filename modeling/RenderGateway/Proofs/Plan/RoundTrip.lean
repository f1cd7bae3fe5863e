import RenderGateway.Plan.Wire
import RenderGateway.Proofs.Json.Records

/-!
# Plans through JSON

A plan whose numbers are finite is read back from its wire form as it was. What is read from any
document has finite numbers, so that its own form is read as the same plan again, however the
document wrote it.
-/

namespace RenderGateway

open Json Json.Decoder

section Names

theorem Container.ofName?_name (c : Container) : ofName? c.name = some c := by
  cases c <;> rfl

theorem Codec.ofName?_name (c : Codec) : ofName? c.name = some c := by
  cases c <;> rfl

theorem Quality.ofName?_name (q : Quality) : ofName? q.name = some q := by
  cases q <;> rfl

theorem TransitionKind.ofName?_name (k : TransitionKind) : ofName? k.name = some k := by
  cases k
  rfl

theorem TextPosition.ofName?_name (p : TextPosition) : ofName? p.name = some p := by
  cases p <;> rfl

theorem Container.reads (c : Container) : Reads decoder toJson c := reads_name c.ofName?_name

theorem Codec.reads (c : Codec) : Reads decoder toJson c := reads_name c.ofName?_name

theorem Quality.reads (q : Quality) : Reads decoder toJson q := reads_name q.ofName?_name

end Names

namespace OutputFormat

def slots (f : OutputFormat) : List Slot :=
  [("container", some f.container.toJson), ("width", some (ofUInt32 f.width)),
   ("height", some (ofUInt32 f.height)), ("fps", some (ofUInt32 f.fps)),
   ("video_bitrate", f.videoBitrate.map .text), ("audio_bitrate", some (.text f.audioBitrate)),
   ("codec_hint", f.codecHint.map Codec.toJson), ("quality", f.quality.map Quality.toJson)]

theorem toJson_eq (f : OutputFormat) : f.toJson = .object (ofSlots f.slots) := by
  simp [toJson, slots]

theorem reads (f : OutputFormat) : Reads decoder toJson f := by
  refine reads_record f.toJson_eq rfl (by simp) fun record _ hslots => ?_
  simp only [slots, List.forall_mem_cons] at hslots
  obtain ⟨hcontainer, hwidth, hheight, hfps, hvideoBitrate, haudioBitrate, hcodecHint, hquality,
    -⟩ := hslots
  rw [Record.withDefault_eq (Container.reads _) hcontainer,
    Record.required_eq (reads_uint32 _) hwidth, Record.required_eq (reads_uint32 _) hheight,
    Record.withDefault_eq (reads_uint32 _) hfps,
    Record.optional_eq (fun _ _ => reads_string _) hvideoBitrate,
    Record.withDefault_eq (reads_string _) haudioBitrate,
    Record.optional_eq (fun _ _ => Codec.reads _) hcodecHint,
    Record.optional_eq (fun _ _ => Quality.reads _) hquality]
  rfl

theorem depth_toJson_le (f : OutputFormat) : f.toJson.depth ≤ 1 := by
  rw [toJson_eq]
  apply depth_ofSlots_le_iff.2
  simp [slots, Container.toJson, Codec.toJson, Quality.toJson]

end OutputFormat

namespace Source

def slots (s : Source) : List Slot :=
  [("id", some (.text s.id)), ("url", some (.text s.url)), ("width", s.width.map ofUInt32),
   ("height", s.height.map ofUInt32), ("container", s.container.map Container.toJson),
   ("duration_ms", s.duration.map ofInt64)]

theorem toJson_eq (s : Source) : s.toJson = .object (ofSlots s.slots) := by
  simp [toJson, slots]

theorem reads (s : Source) : Reads decoder toJson s := by
  refine reads_record s.toJson_eq rfl (by simp) fun record _ hslots => ?_
  simp only [slots, List.forall_mem_cons] at hslots
  obtain ⟨hid, hurl, hwidth, hheight, hcontainer, hduration, -⟩ := hslots
  rw [Record.required_eq (reads_string _) hid, Record.required_eq (reads_string _) hurl,
    Record.optional_eq (fun _ _ => reads_uint32 _) hwidth,
    Record.optional_eq (fun _ _ => reads_uint32 _) hheight,
    Record.optional_eq (fun _ _ => Container.reads _) hcontainer,
    Record.optional_eq (fun _ _ => reads_int64 _) hduration]
  rfl

theorem depth_toJson_le (s : Source) : s.toJson.depth ≤ 1 := by
  rw [toJson_eq]
  apply depth_ofSlots_le_iff.2
  simp [slots, Container.toJson]

end Source

/-- Whether all of some doubles have a numeral. -/
def AllFinite (xs : List Binary64) : Prop := ∀ x ∈ xs, x.isFinite = true

theorem allFinite_cons {x : Binary64} {xs : List Binary64} :
    AllFinite (x :: xs) ↔ x.isFinite = true ∧ AllFinite xs := List.forall_mem_cons

theorem allFinite_append {xs ys : List Binary64} :
    AllFinite (xs ++ ys) ↔ AllFinite xs ∧ AllFinite ys := List.forall_mem_append

theorem allFinite_flatMap {as : List α} {numbers : α → List Binary64} :
    AllFinite (as.flatMap numbers) ↔ ∀ a ∈ as, AllFinite (numbers a) :=
  List.forall_mem_flatMap

namespace VideoFilter

/-- The doubles in a filter. -/
def numbers : VideoFilter → List Binary64
  | grayscale | sharpen => []
  | blur x | brightness x | contrast x | saturation x => [x]

def slots (f : VideoFilter) : List Slot :=
  ("type", some (.text f.kind)) :: f.parameters.map fun (name, j) => (name, some j)

theorem toJson_eq (f : VideoFilter) : f.toJson = .object (ofSlots f.slots) := by
  cases f <;> rfl

theorem nodup_slots (f : VideoFilter) : (f.slots.map Prod.fst).Nodup := by
  cases f <;> simp [slots, parameters]

theorem decoder_toJson (f : VideoFilter) (r : Repeats) :
    decoder r f.toJson = ofKind? f.kind r f.toJson := by
  have hlookup : lookup "type" (ofSlots f.slots) = some (.text f.kind) :=
    lookup_ofSlots f.nodup_slots List.mem_cons_self
  rw [toJson_eq]
  simp [decoder, repeatsName_ofSlots f.nodup_slots, hlookup]

theorem reads_valued {f : VideoFilter} {x : Binary64} (hx : x.isFinite = true)
    (hvalue : ("value", some (ofBinary64 x)) ∈ f.slots) (make : Binary64 → VideoFilter)
    (r : Repeats) : ofKind?.valued make r f.toJson = some (make x) := by
  rw [toJson_eq]
  refine reads_slots f.nodup_slots (fun record _ hslots => ?_) r
  rw [Record.required_eq (reads_binary64 hx) (hslots _ hvalue)]
  rfl

theorem reads {f : VideoFilter} (h : AllFinite f.numbers) : Reads decoder toJson f := by
  refine ⟨nofun, fun r => ?_⟩
  rw [decoder_toJson]
  cases f with
  | grayscale => rfl
  | sharpen => rfl
  | blur x =>
    refine reads_slots (blur x).nodup_slots (fun record _ hslots => ?_) r
    have hsigma := hslots ("sigma", some (ofBinary64 x)) (by simp [slots, parameters])
    rw [Record.withDefault_eq (reads_binary64 (h x List.mem_cons_self)) hsigma]
    rfl
  | brightness x =>
    exact reads_valued (h x List.mem_cons_self) (by simp [slots, parameters]) brightness r
  | contrast x =>
    exact reads_valued (h x List.mem_cons_self) (by simp [slots, parameters]) contrast r
  | saturation x =>
    exact reads_valued (h x List.mem_cons_self) (by simp [slots, parameters]) saturation r

theorem depth_toJson_le (f : VideoFilter) : f.toJson.depth ≤ 1 := by
  rw [toJson_eq]
  apply depth_ofSlots_le_iff.2
  cases f <;> simp [slots, parameters]

theorem yields_valued {make : Binary64 → VideoFilter} (hmake : ∀ x, (make x).numbers = [x]) :
    Yields (ofKind?.valued make) fun f => AllFinite f.numbers := by
  refine yields_record fun record f hf => ?_
  obtain ⟨x, hx, rfl⟩ := Option.map_eq_some_iff.1 hf
  rw [hmake]
  exact List.forall_mem_singleton.2 (yields_binary64.required hx)

theorem numbers_of_bare {f g : VideoFilter} {j : Json} (h : ofKind?.bare f j = some g) : g = f := by
  unfold ofKind?.bare at h
  split at h
  · cases h
  · exact (Option.some.inj h).symm

theorem yields_ofKind? (kind : String) :
    Yields (ofKind? kind) fun f => AllFinite f.numbers := by
  intro r j f hf
  unfold ofKind? at hf
  split_ifs at hf
  · rw [numbers_of_bare hf]
    exact List.forall_mem_nil _
  · rw [numbers_of_bare hf]
    exact List.forall_mem_nil _
  · refine yields_record (P := fun f => AllFinite f.numbers) (fun record f hf => ?_) hf
    obtain ⟨x, hx, rfl⟩ := Option.map_eq_some_iff.1 hf
    exact List.forall_mem_singleton.2 (yields_binary64.withDefault rfl hx)
  · exact yields_valued (fun _ => rfl) hf
  · exact yields_valued (fun _ => rfl) hf
  · exact yields_valued (fun _ => rfl) hf

/-- The parameter of a filter that is read is finite. -/
theorem yields : Yields decoder fun f => AllFinite f.numbers := by
  intro r j f hf
  unfold decoder at hf
  split at hf
  · split at hf
    · cases hf
    · split at hf
      · exact yields_ofKind? _ hf
      · cases hf
  · exact yields_ofKind? _ hf
  · cases hf

end VideoFilter

namespace Transition

def slots (t : Transition) : List Slot :=
  [("kind", some (.text t.kind.name)), ("duration_ms", some (ofInt64 t.duration))]

theorem toJson_eq (t : Transition) : t.toJson = .object (ofSlots t.slots) := rfl

theorem reads (t : Transition) : Reads decoder toJson t := by
  refine reads_record t.toJson_eq rfl (by simp) fun record _ hslots => ?_
  simp only [slots, List.forall_mem_cons] at hslots
  obtain ⟨hkind, hduration, -⟩ := hslots
  rw [Record.withDefault_eq (reads_name (TransitionKind.ofName?_name _)) hkind,
    Record.required_eq (reads_int64 _) hduration]
  rfl

theorem depth_toJson_le (t : Transition) : t.toJson.depth ≤ 1 := by
  rw [toJson_eq]
  apply depth_ofSlots_le_iff.2
  simp [slots]

end Transition

namespace Segment

/-- The doubles in a segment. -/
def numbers (s : Segment) : List Binary64 := s.speed :: s.filters.flatMap VideoFilter.numbers

def slots (s : Segment) : List Slot :=
  [("segment_id", some (.text s.id)), ("source_video_id", s.sourceId.map .text),
   ("source_segment_id", s.sourceSegmentId.map .text), ("asset_url", s.assetUrl.map .text),
   ("trim_start_ms", some (ofInt64 s.trimStart)), ("trim_end_ms", some (ofInt64 s.trimEnd)),
   ("source_duration_ms", s.sourceDuration.map ofInt64),
   ("timeline_start_ms", some (ofInt64 s.timelineStart)),
   ("timeline_end_ms", some (ofInt64 s.timelineEnd)),
   ("output_duration_ms", some (ofInt64 s.outputDuration)),
   ("speed_multiplier", some (ofBinary64 s.speed)), ("track", some (.text s.track)),
   ("layer", some (ofUInt32 s.layer)), ("filters", nonEmpty VideoFilter.toJson s.filters),
   ("transition_in", s.transition.map Transition.toJson)]

theorem toJson_eq (s : Segment) : s.toJson = .object (ofSlots s.slots) := by
  simp [toJson, slots]

theorem reads {s : Segment} (h : AllFinite s.numbers) : Reads decoder toJson s := by
  obtain ⟨hspeed, hfilters⟩ := allFinite_cons.1 h
  rw [allFinite_flatMap] at hfilters
  refine reads_record s.toJson_eq rfl (by simp [fieldNames]) fun record _ hslots => ?_
  simp only [slots, List.forall_mem_cons] at hslots
  obtain ⟨hid, hsourceId, hsourceSegmentId, hassetUrl, htrimStart, htrimEnd, hsourceDuration,
    htimelineStart, htimelineEnd, houtputDuration, hspeedSlot, htrack, hlayer, hfiltersSlot,
    htransition, -⟩ := hslots
  rw [Record.required_eq (reads_string _) hid,
    Record.optional_eq (fun _ _ => reads_string _) hsourceId,
    Record.optional_eq (fun _ _ => reads_string _) hsourceSegmentId,
    Record.optional_eq (fun _ _ => reads_string _) hassetUrl,
    Record.required_eq (reads_int64 _) htrimStart, Record.required_eq (reads_int64 _) htrimEnd,
    Record.optional_eq (fun _ _ => reads_int64 _) hsourceDuration,
    Record.required_eq (reads_int64 _) htimelineStart,
    Record.required_eq (reads_int64 _) htimelineEnd,
    Record.required_eq (reads_int64 _) houtputDuration,
    Record.withDefault_eq (reads_binary64 hspeed) hspeedSlot,
    Record.withDefault_eq (reads_string _) htrack, Record.withDefault_eq (reads_uint32 _) hlayer,
    Record.withDefault_nil_eq (fun f hf => VideoFilter.reads (hfilters f hf)) hfiltersSlot,
    Record.optional_eq (fun _ _ => Transition.reads _) htransition]
  rfl

theorem yields : Yields decoder fun s => AllFinite s.numbers := by
  refine yields_record fun record => ?_
  iterate 10 refine forall_mem_bind fun _ _ => ?_
  refine forall_mem_bind fun speed hspeed => ?_
  iterate 2 refine forall_mem_bind fun _ _ => ?_
  refine forall_mem_bind fun filters hfilters => ?_
  refine forall_mem_bind fun _ _ => ?_
  rintro _ ⟨⟩
  exact allFinite_cons.2 ⟨yields_binary64.withDefault rfl hspeed,
    allFinite_flatMap.2 (VideoFilter.yields.list.withDefault (List.forall_mem_nil _) hfilters)⟩

theorem depth_toJson_le (s : Segment) : s.toJson.depth ≤ 3 := by
  rw [toJson_eq]
  apply depth_ofSlots_le_iff.2
  have hfilters : ∀ j ∈ nonEmpty VideoFilter.toJson s.filters, j.depth ≤ 2 :=
    depth_nonEmpty_le fun f _ => f.depth_toJson_le
  have htransition : ∀ t ∈ s.transition, t.toJson.depth ≤ 2 := fun t _ =>
    t.depth_toJson_le.trans (by decide)
  simpa [slots] using ⟨hfilters, htransition⟩

end Segment

namespace AudioTrack

/-- The doubles in an audio track. -/
def numbers (t : AudioTrack) : List Binary64 := [t.volume, t.speed]

def slots (t : AudioTrack) : List Slot :=
  [("audio_id", some (.text t.id)), ("asset_url", t.assetUrl.map .text),
   ("source_video_id", t.sourceId.map .text), ("trim_start_ms", some (ofInt64 t.trimStart)),
   ("trim_end_ms", some (ofInt64 t.trimEnd)),
   ("timeline_start_ms", some (ofInt64 t.timelineStart)),
   ("timeline_end_ms", t.timelineEnd.map ofInt64), ("volume", some (ofBinary64 t.volume)),
   ("fade_in_ms", some (ofInt64 t.fadeIn)), ("fade_out_ms", some (ofInt64 t.fadeOut)),
   ("speed_multiplier", some (ofBinary64 t.speed)), ("track", some (.text t.track))]

theorem toJson_eq (t : AudioTrack) : t.toJson = .object (ofSlots t.slots) := by
  simp [toJson, slots]

theorem reads {t : AudioTrack} (h : AllFinite t.numbers) : Reads decoder toJson t := by
  obtain ⟨hvolume, hrest⟩ := allFinite_cons.1 h
  obtain ⟨hspeed, -⟩ := allFinite_cons.1 hrest
  refine reads_record t.toJson_eq rfl (by simp [fieldNames]) fun record _ hslots => ?_
  simp only [slots, List.forall_mem_cons] at hslots
  obtain ⟨hid, hassetUrl, hsourceId, htrimStart, htrimEnd, htimelineStart, htimelineEnd,
    hvolumeSlot, hfadeIn, hfadeOut, hspeedSlot, htrack, -⟩ := hslots
  rw [Record.required_eq (reads_string _) hid,
    Record.optional_eq (fun _ _ => reads_string _) hassetUrl,
    Record.optional_eq (fun _ _ => reads_string _) hsourceId,
    Record.required_eq (reads_int64 _) htrimStart, Record.required_eq (reads_int64 _) htrimEnd,
    Record.required_eq (reads_int64 _) htimelineStart,
    Record.optional_eq (fun _ _ => reads_int64 _) htimelineEnd,
    Record.withDefault_eq (reads_binary64 hvolume) hvolumeSlot,
    Record.withDefault_eq (reads_int64 _) hfadeIn, Record.withDefault_eq (reads_int64 _) hfadeOut,
    Record.withDefault_eq (reads_binary64 hspeed) hspeedSlot,
    Record.withDefault_eq (reads_string _) htrack]
  rfl

theorem yields : Yields decoder fun t => AllFinite t.numbers := by
  refine yields_record fun record => ?_
  iterate 7 refine forall_mem_bind fun _ _ => ?_
  refine forall_mem_bind fun volume hvolume => ?_
  iterate 2 refine forall_mem_bind fun _ _ => ?_
  refine forall_mem_bind fun speed hspeed => ?_
  refine forall_mem_bind fun _ _ => ?_
  rintro _ ⟨⟩
  exact allFinite_cons.2 ⟨yields_binary64.withDefault rfl hvolume,
    allFinite_cons.2 ⟨yields_binary64.withDefault rfl hspeed,
      List.forall_mem_nil _⟩⟩

theorem depth_toJson_le (t : AudioTrack) : t.toJson.depth ≤ 1 := by
  rw [toJson_eq]
  apply depth_ofSlots_le_iff.2
  simp [slots]

end AudioTrack

namespace TextBackground

def slots (b : TextBackground) : List Slot :=
  [("color", some (.text b.color)), ("opacity", some (ofBinary64 b.opacity)),
   ("padding", some (ofUInt32 b.padding))]

theorem toJson_eq (b : TextBackground) : b.toJson = .object (ofSlots b.slots) := rfl

theorem reads {b : TextBackground} (h : b.opacity.isFinite = true) : Reads decoder toJson b := by
  refine reads_record b.toJson_eq rfl (by simp) fun record _ hslots => ?_
  simp only [slots, List.forall_mem_cons] at hslots
  obtain ⟨hcolor, hopacity, hpadding, -⟩ := hslots
  rw [Record.withDefault_eq (reads_string _) hcolor,
    Record.withDefault_eq (reads_binary64 h) hopacity,
    Record.withDefault_eq (reads_uint32 _) hpadding]
  rfl

theorem yields : Yields decoder fun b => b.opacity.isFinite = true := by
  refine yields_record fun record => ?_
  refine forall_mem_bind fun _ _ => ?_
  refine forall_mem_bind fun opacity hopacity => ?_
  refine forall_mem_bind fun _ _ => ?_
  rintro _ ⟨⟩
  exact yields_binary64.withDefault rfl hopacity

theorem depth_toJson_le (b : TextBackground) : b.toJson.depth ≤ 1 := by
  rw [toJson_eq]
  apply depth_ofSlots_le_iff.2
  simp [slots]

end TextBackground

namespace TextOverlay

/-- The doubles in a text overlay. -/
def numbers (o : TextOverlay) : List Binary64 := o.background.toList.map TextBackground.opacity

def slots (o : TextOverlay) : List Slot :=
  [("text_id", some (.text o.id)), ("content", some (.text o.content)),
   ("timeline_start_ms", some (ofInt64 o.timelineStart)),
   ("timeline_end_ms", some (ofInt64 o.timelineEnd)), ("font_size", some (ofUInt32 o.fontSize)),
   ("font_color", some (.text o.fontColor)), ("font_file", o.fontFile.map .text),
   ("position", some (.text o.position.name)), ("x", o.x.map .text), ("y", o.y.map .text),
   ("background", o.background.map TextBackground.toJson)]

theorem toJson_eq (o : TextOverlay) : o.toJson = .object (ofSlots o.slots) := by
  simp [toJson, slots]

theorem allFinite_numbers {o : TextOverlay} :
    AllFinite o.numbers ↔ ∀ b ∈ o.background, b.opacity.isFinite = true := by
  simp [AllFinite, numbers]

theorem reads {o : TextOverlay} (h : AllFinite o.numbers) : Reads decoder toJson o := by
  refine reads_record o.toJson_eq rfl (by simp [fieldNames]) fun record _ hslots => ?_
  simp only [slots, List.forall_mem_cons] at hslots
  obtain ⟨hid, hcontent, htimelineStart, htimelineEnd, hfontSize, hfontColor, hfontFile,
    hposition, hx, hy, hbackground, -⟩ := hslots
  rw [Record.required_eq (reads_string _) hid, Record.required_eq (reads_string _) hcontent,
    Record.required_eq (reads_int64 _) htimelineStart,
    Record.required_eq (reads_int64 _) htimelineEnd,
    Record.withDefault_eq (reads_uint32 _) hfontSize,
    Record.withDefault_eq (reads_string _) hfontColor,
    Record.optional_eq (fun _ _ => reads_string _) hfontFile,
    Record.withDefault_eq (reads_name (TextPosition.ofName?_name _)) hposition,
    Record.optional_eq (fun _ _ => reads_string _) hx,
    Record.optional_eq (fun _ _ => reads_string _) hy,
    Record.optional_eq (fun b hb => TextBackground.reads (allFinite_numbers.1 h b hb))
      hbackground]
  rfl

theorem yields : Yields decoder fun o => AllFinite o.numbers := by
  refine yields_record fun record => ?_
  iterate 10 refine forall_mem_bind fun _ _ => ?_
  refine forall_mem_bind fun background hbackground => ?_
  rintro _ ⟨⟩
  exact allFinite_numbers.2 (TextBackground.yields.optional hbackground)

theorem depth_toJson_le (o : TextOverlay) : o.toJson.depth ≤ 2 := by
  rw [toJson_eq]
  apply depth_ofSlots_le_iff.2
  have hbackground : ∀ b ∈ o.background, b.toJson.depth ≤ 1 := fun b _ => b.depth_toJson_le
  simpa [slots] using hbackground

end TextOverlay

namespace PlanSummary

def slots (v : PlanSummary) : List Slot :=
  [("segment_count", some (ofUInt64 v.segments)),
   ("base_segment_count", some (ofUInt64 v.baseSegments)),
   ("layer_segment_count", some (ofUInt64 v.layerSegments)),
   ("audio_track_count", some (ofUInt64 v.audioTracks)),
   ("text_overlay_count", some (ofUInt64 v.textOverlays)),
   ("output_duration_ms", some (ofInt64 v.outputDuration)),
   ("warnings", nonEmpty .text v.warnings)]

theorem toJson_eq (v : PlanSummary) : v.toJson = .object (ofSlots v.slots) := by
  simp [toJson, slots]

theorem reads (v : PlanSummary) : Reads decoder toJson v := by
  refine reads_record v.toJson_eq rfl (by simp [fieldNames]) fun record _ hslots => ?_
  simp only [slots, List.forall_mem_cons] at hslots
  obtain ⟨hsegments, hbaseSegments, hlayerSegments, haudioTracks, htextOverlays,
    houtputDuration, hwarnings, -⟩ := hslots
  rw [Record.required_eq (reads_uint64 _) hsegments,
    Record.required_eq (reads_uint64 _) hbaseSegments,
    Record.required_eq (reads_uint64 _) hlayerSegments,
    Record.required_eq (reads_uint64 _) haudioTracks,
    Record.required_eq (reads_uint64 _) htextOverlays,
    Record.required_eq (reads_int64 _) houtputDuration,
    Record.withDefault_nil_eq (fun _ _ => reads_string _) hwarnings]
  rfl

theorem depth_toJson_le (v : PlanSummary) : v.toJson.depth ≤ 2 := by
  rw [toJson_eq]
  apply depth_ofSlots_le_iff.2
  have hwarnings : ∀ j ∈ nonEmpty .text v.warnings, j.depth ≤ 1 :=
    depth_nonEmpty_le fun _ _ => le_rfl
  simpa [slots] using hwarnings

end PlanSummary

namespace Plan

/-- The doubles in a plan. -/
def numbers (p : Plan) : List Binary64 :=
  p.timeline.flatMap Segment.numbers ++ p.audioTracks.flatMap AudioTrack.numbers ++
    p.textOverlays.flatMap TextOverlay.numbers

def slots (p : Plan) : List Slot :=
  [("plan_id", some (.text p.id)), ("project_id", p.projectId.map .text),
   ("source_video_url", p.defaultUrl.map .text), ("sources", nonEmpty Source.toJson p.sources),
   ("output_format", some p.format.toJson), ("timeline", some (ofList Segment.toJson p.timeline)),
   ("audio_tracks", some (ofList AudioTrack.toJson p.audioTracks)),
   ("text_overlays", some (ofList TextOverlay.toJson p.textOverlays)),
   ("validation", p.summary.map PlanSummary.toJson)]

theorem toJson_eq (p : Plan) : p.toJson = .object (ofSlots p.slots) := by
  simp [toJson, slots]

theorem allFinite_numbers {p : Plan} :
    AllFinite p.numbers ↔ (∀ s ∈ p.timeline, AllFinite s.numbers) ∧
      (∀ t ∈ p.audioTracks, AllFinite t.numbers) ∧ ∀ o ∈ p.textOverlays, AllFinite o.numbers := by
  rw [numbers, allFinite_append, allFinite_append, allFinite_flatMap, allFinite_flatMap,
    allFinite_flatMap, and_assoc]

/-- A plan whose numbers are finite is read from its form. -/
theorem reads {p : Plan} (h : AllFinite p.numbers) : Reads decoder toJson p := by
  obtain ⟨htimeline, haudioTracks, htextOverlays⟩ := allFinite_numbers.1 h
  refine reads_record p.toJson_eq rfl (by simp [fieldNames]) fun record _ hslots => ?_
  simp only [slots, List.forall_mem_cons] at hslots
  obtain ⟨hid, hprojectId, hdefaultUrl, hsources, hformat, htimelineSlot, haudioTracksSlot,
    htextOverlaysSlot, hsummary, -⟩ := hslots
  rw [Record.required_eq (reads_string _) hid,
    Record.optional_eq (fun _ _ => reads_string _) hprojectId,
    Record.optional_eq (fun _ _ => reads_string _) hdefaultUrl,
    Record.withDefault_nil_eq (fun _ _ => Source.reads _) hsources,
    Record.required_eq (OutputFormat.reads _) hformat,
    Record.required_eq (reads_list fun s hs => Segment.reads (htimeline s hs)) htimelineSlot,
    Record.withDefault_eq (reads_list fun t ht => AudioTrack.reads (haudioTracks t ht))
      haudioTracksSlot,
    Record.withDefault_eq (reads_list fun o ho => TextOverlay.reads (htextOverlays o ho))
      htextOverlaysSlot,
    Record.optional_eq (fun _ _ => PlanSummary.reads _) hsummary]
  rfl

/-- The numbers of a plan that is read from any document are finite. -/
theorem yields : Yields decoder fun p => AllFinite p.numbers := by
  refine yields_record fun record => ?_
  iterate 5 refine forall_mem_bind fun _ _ => ?_
  refine forall_mem_bind fun timeline htimeline => ?_
  refine forall_mem_bind fun audioTracks haudioTracks => ?_
  refine forall_mem_bind fun textOverlays htextOverlays => ?_
  refine forall_mem_bind fun _ _ => ?_
  rintro _ ⟨⟩
  exact allFinite_numbers.2 ⟨Segment.yields.list.required htimeline,
    AudioTrack.yields.list.withDefault (List.forall_mem_nil _) haudioTracks,
    TextOverlay.yields.list.withDefault (List.forall_mem_nil _) htextOverlays⟩

theorem depth_toJson_le (p : Plan) : p.toJson.depth ≤ 5 := by
  rw [toJson_eq]
  apply depth_ofSlots_le_iff.2
  have hsources : ∀ j ∈ nonEmpty Source.toJson p.sources, j.depth ≤ 4 := by
    refine depth_nonEmpty_le fun s _ => s.depth_toJson_le.trans (by decide)
  have hformat : p.format.toJson.depth ≤ 4 := p.format.depth_toJson_le.trans (by decide)
  have htimeline : (ofList Segment.toJson p.timeline).depth ≤ 4 :=
    depth_ofList_le fun s _ => s.depth_toJson_le
  have haudioTracks : (ofList AudioTrack.toJson p.audioTracks).depth ≤ 4 :=
    depth_ofList_le fun t _ => t.depth_toJson_le.trans (by decide)
  have htextOverlays : (ofList TextOverlay.toJson p.textOverlays).depth ≤ 4 :=
    depth_ofList_le fun o _ => o.depth_toJson_le.trans (by decide)
  have hsummary : ∀ v ∈ p.summary, v.toJson.depth ≤ 4 := fun v _ =>
    v.depth_toJson_le.trans (by decide)
  simpa [slots] using ⟨hsources, hformat, htimeline, haudioTracks, htextOverlays, hsummary⟩

end Plan

end RenderGateway
