import RenderGateway.Proofs.Command.Compilation
import RenderGateway.Proofs.Transform.Ranges
import RenderGateway.Transform.Planning

/-!
# Planned transforms

A planned transform has a valid format and a valid segment, and its track is valid but for its
volume and its fades: a fade has no length below zero, but the sum of the fades is not held against
the length of the output, and a volume is in range if it is a number. `check_of_toPlan` says that
these are the only faults that the check of a plan can find in a planned transform.
-/

namespace RenderGateway

namespace TransformOptions

variable {o : TransformOptions} {source : SourceInfo}

theorem window_ok {start stop : Int64} (h : o.window source = .ok (start, stop)) :
    start = (o.trim.map TrimOptions.start).getD 0 ∧ start.toInt < stop.toInt ∧
      ∀ d, source.duration = some d → stop.toInt ≤ d.toInt := by
  unfold window at h
  dsimp only at h
  split at h
  · cases h
  · split_ifs at h with hempty
    split at h
    · next d hd =>
      split_ifs at h with hbeyond
      simp only [Except.ok.injEq, Prod.mk.injEq] at h
      obtain ⟨rfl, rfl⟩ := h
      refine ⟨rfl, Int.not_le.1 hempty, fun d' hd' => ?_⟩
      rw [hd, Option.some.injEq] at hd'
      exact hd' ▸ Int.not_lt.1 hbeyond
    · next hd =>
      simp only [Except.ok.injEq, Prod.mk.injEq] at h
      obtain ⟨rfl, rfl⟩ := h
      exact ⟨rfl, Int.not_le.1 hempty, by simp [hd]⟩

/-- The largest even size in range is a frame edge. -/
theorem isFrameEdge_even_min {n : UInt32} (h : 2 ≤ n) :
    IsFrameEdge (even (min n maxDimension)) := by
  have hmax : maxDimension.toNat = 7680 := rfl
  have hn : 2 ≤ n.toNat := UInt32.le_iff_toNat_le.1 h
  obtain ⟨m, hm, hlow, hhigh⟩ : ∃ m, min n maxDimension = m ∧ 2 ≤ m.toNat ∧ m.toNat ≤ 7680 := by
    by_cases hle : n ≤ maxDimension
    · exact ⟨n, if_pos hle, hn, UInt32.le_iff_toNat_le.1 hle⟩
    · exact ⟨maxDimension, if_neg hle, by decide, by decide⟩
  have hrest : (m % 2).toNat = m.toNat % 2 := UInt32.toNat_mod m 2
  have heven : (even m).toNat = m.toNat - m.toNat % 2 := by
    rw [even, UInt32.toNat_sub_of_le _ _ (UInt32.le_iff_toNat_le.2 (by omega)), hrest]
  rw [hm]
  exact ⟨by omega, by omega, by rw [Nat.even_iff]; omega⟩

theorem frameSize_ok {width height : UInt32} (hrange : o.InRange)
    (h : o.frameSize source = .ok (width, height)) : IsFrameEdge width ∧ IsFrameEdge height := by
  have hfallback : fallbackSize = (width, height) → IsFrameEdge width ∧ IsFrameEdge height := by
    intro heq
    cases heq
    exact ⟨⟨by decide, by decide, by decide⟩, ⟨by decide, by decide, by decide⟩⟩
  unfold frameSize at h
  split at h
  · next r hr =>
    split_ifs at h with hodd
    cases h
    rw [not_or, not_not, not_not, ← even_toNat_iff, ← even_toNat_iff] at hodd
    obtain ⟨⟨hhlow, hhhigh⟩, hwlow, hwhigh⟩ := hrange.resize r hr
    exact ⟨⟨by omega, hwhigh, hodd.1⟩, ⟨by omega, hhhigh, hodd.2⟩⟩
  · split at h
    · split_ifs at h with hlarge
      · cases h
        exact ⟨isFrameEdge_even_min hlarge.1, isFrameEdge_even_min hlarge.2⟩
      · exact hfallback (Except.ok.inj h)
    · exact hfallback (Except.ok.inj h)

/-- What a planned transform consists of. -/
structure Planned (o : TransformOptions) (url : String) (source : SourceInfo) (p : Plan) where
  start : Int64
  stop : Int64
  width : UInt32
  height : UInt32
  inRange : o.InRange
  window_eq : o.window source = .ok (start, stop)
  size_eq : o.frameSize source = .ok (width, height)
  sources_eq : p.sources =
    [⟨sourceId, url, source.width, source.height, Container.ofPath? url, source.duration⟩]
  format_eq : p.format = { OutputFormat.ofSize width height with
    container := (o.format.or (Container.ofPath? url)).getD .mp4
    quality := o.quality }
  timeline_eq : p.timeline = [o.segment source start stop]
  tracks_eq : p.audioTracks = o.audioTracks source start stop
  texts_eq : p.textOverlays = []

theorem toPlan_ok {id url : String} {p : Plan} (h : o.toPlan id url source = .ok p) :
    Nonempty (Planned o url source p) := by
  unfold toPlan at h
  split at h
  · cases h
  · next hviolations =>
    split_ifs at h
    obtain ⟨⟨start, stop⟩, hwindow, h⟩ := bind_ok h
    obtain ⟨⟨width, height⟩, hsize, h⟩ := bind_ok h
    cases h
    exact ⟨⟨start, stop, width, height, violations_eq_nil_iff.1 hviolations, hwindow, hsize, rfl,
      rfl, rfl, rfl, rfl⟩⟩

/-- Whether the sound of the source is heard in the output. -/
def PlaysSound (o : TransformOptions) (source : SourceInfo) : Prop :=
  (o.audio.getD .default).mute = false ∧ source.hasAudio = some true

/-- Fades that fit into an output of a length, if it has one and plays the sound of the source.
Their sum is one of words. -/
def FadesFit (o : TransformOptions) (source : SourceInfo) (length : Int) : Prop :=
  o.PlaysSound source → 0 < length →
    Word.wrap (((o.audio.getD .default).fadeIn.getD 0).toInt +
      ((o.audio.getD .default).fadeOut.getD 0).toInt) ≤ length

/-- A volume that is a number, if the output plays the sound of the source. -/
def VolumeFits (o : TransformOptions) (source : SourceInfo) : Prop :=
  o.PlaysSound source → ((o.audio.getD .default).volume.getD 1).isNaN = false

instance (o : TransformOptions) (source : SourceInfo) : Decidable (o.PlaysSound source) :=
  inferInstanceAs (Decidable (_ ∧ _))

instance (o : TransformOptions) (source : SourceInfo) (length : Int) :
    Decidable (o.FadesFit source length) :=
  inferInstanceAs (Decidable (_ → _ → _))

instance (o : TransformOptions) (source : SourceInfo) : Decidable (o.VolumeFits source) :=
  inferInstanceAs (Decidable (_ → _))

/-- The faults of a planned transform with an output of a length. -/
def planIssues (o : TransformOptions) (source : SourceInfo) (length : Int) : List Issue :=
  (if o.VolumeFits source then []
    else [⟨"audio_tracks[0].volume", "must be between 0 and 2"⟩]) ++
  (if o.FadesFit source length then []
    else [⟨"audio_tracks[0].fade_out_ms", "fade in + fade out exceed the track duration"⟩])

theorem planIssues_eq_nil_iff {length : Int} : o.planIssues source length = [] ↔
    o.VolumeFits source ∧ o.FadesFit source length := by
  simp [planIssues]

namespace Planned

variable {url : String} {p : Plan}

theorem start_nonneg (h : Planned o url source p) : 0 ≤ h.start.toInt := by
  rw [(window_ok h.window_eq).1]
  exact h.inRange.trimStart_nonneg

theorem start_lt_stop (h : Planned o url source p) : h.start.toInt < h.stop.toInt :=
  (window_ok h.window_eq).2.1

/-- What reads the source by its id is given its url. -/
theorem resolveAsset_source (h : Planned o url source p) :
    p.resolveAsset none (some sourceId) = some url := by
  simp [Plan.resolveAsset, Plan.present, Plan.source?, h.sources_eq]

theorem format_valid (h : Planned o url source p) : p.format.Valid := by
  obtain ⟨hwidth, hheight⟩ := frameSize_ok h.inRange h.size_eq
  have hfps : 1 ≤ OutputFormat.defaultFps.toNat ∧ OutputFormat.defaultFps.toNat ≤ 120 := by decide
  rw [h.format_eq]
  refine ⟨hwidth, hheight, hfps.1, hfps.2, ?_⟩
  generalize (o.format.or (Container.ofPath? url)).getD .mp4 = container
  cases container <;> rfl

theorem near_self (a : Int) : Near .words a a := by
  rw [near_words_iff (by simp), near_exact_iff]
  simp

theorem segment_valid (h : Planned o url source p) :
    (o.segment source h.start h.stop).Valid .words p where
  resolves := by
    rw [Plan.segmentAsset, segment, h.resolveAsset_source]
    rfl
  trimStart_nonneg := h.start_nonneg
  trim_lt := h.start_lt_stop
  trimEnd_le := (window_ok h.window_eq).2.2
  speed_pos := h.inRange.playingSpeed.1
  speed_le := h.inRange.playingSpeed.2
  duration := near_self _
  timelineStart_nonneg := Int.le_refl 0
  window := by
    dsimp only [segment]
    rw [show (0 : Int64).toInt = 0 from rfl, Int.sub_zero]
    exact near_self _
  transition := nofun

theorem timelineIssues_eq_nil (h : Planned o url source p) :
    p.timelineIssuesFrom [] p.timeline = [] := by
  refine (Plan.timelineIssuesFrom_eq_nil_iff List.Pairwise.nil).2 ?_
  rw [h.timeline_eq]
  exact ⟨List.forall_mem_singleton.2 h.segment_valid, List.pairwise_singleton _ _⟩

theorem outputDuration_eq (h : Planned o url source p) :
    p.outputDuration = (playedDuration h.start h.stop (o.speed.getD 1)).toInt := by
  have hplayed := playedDuration_nonneg h.start_nonneg (Int.le_of_lt h.start_lt_stop)
    h.inRange.playingSpeed.1
  have hjoined : p.joinedDuration =
      (playedDuration h.start h.stop (o.speed.getD 1)).toInt := by
    rw [Plan.joinedDuration, Plan.baseSegments, h.timeline_eq]
    change max 0 _ + 0 = _
    rw [Int.add_zero]
    exact Int.max_eq_right hplayed
  have hword := (playedDuration h.start h.stop (o.speed.getD 1)).toInt_lt
  rw [Plan.outputDuration, hjoined, Word.wrap_eq_self (by omega) hword]

theorem tracks_eq_nil (h : Planned o url source p) (hsound : ¬o.PlaysSound source) :
    p.audioTracks = [] := by
  rw [h.tracks_eq, audioTracks, if_neg]
  rwa [Bool.and_eq_true, Bool.not_eq_true', decide_eq_true_eq]

/-- The sound of the source is valid but for its volume and its fades. -/
theorem exists_track (h : Planned o url source p) (hsound : o.PlaysSound source) :
    ∃ t, p.audioTracks = [t] ∧ t.unshaped.Valid .words p ∧
      t.outputDuration.toInt = p.outputDuration ∧
      t.volume = (o.audio.getD .default).volume.getD 1 ∧
      t.fadeIn = (o.audio.getD .default).fadeIn.getD 0 ∧
      t.fadeOut = (o.audio.getD .default).fadeOut.getD 0 := by
  rw [h.tracks_eq, audioTracks, if_pos]
  · refine ⟨_, rfl, ?_, h.outputDuration_eq.symm, rfl, rfl, rfl⟩
    exact {
      resolves := by
        rw [Plan.audioAsset, AudioTrack.unshaped, h.resolveAsset_source]
        rfl
      trimStart_nonneg := h.start_nonneg
      trim_lt := h.start_lt_stop
      timelineStart_nonneg := Int.le_refl 0
      volume_nonneg := by
        change (0 : Binary64) ≤ 1
        decide +kernel
      volume_le := by
        change (1 : Binary64) ≤ 2
        decide +kernel
      speed_pos := h.inRange.playingSpeed.1
      speed_le := h.inRange.playingSpeed.2
      fadeIn_nonneg := Int.le_refl 0
      fadeOut_nonneg := Int.le_refl 0
      fades_fit := Int.le_of_lt
      timelineEnd := by
        rintro e he
        cases he
        change Near .words (_ - 0) _
        rw [Int.sub_zero]
        exact near_self _ }
  · rwa [Bool.and_eq_true, Bool.not_eq_true', decide_eq_true_eq]

/-- The volume of a planned transform is in range exactly if it is a number. -/
theorem volume_inRange_iff (h : Planned o url source p) :
    (0 ≤ (o.audio.getD .default).volume.getD 1 ∧ (o.audio.getD .default).volume.getD 1 ≤ 2) ↔
      ((o.audio.getD .default).volume.getD 1).isNaN = false := by
  cases hv : (o.audio.getD .default).volume with
  | none => decide +kernel
  | some v =>
    rw [Option.getD_some]
    constructor
    · rintro ⟨hnonneg, _⟩
      cases v with
      | nan => cases hnonneg
      | infinite | finite => rfl
    · intro hnumber
      exact (h.inRange.audioInRange.volume v hv).resolve_left (by simp [hnumber])

/-- The only faults that the check finds in a planned transform are in its volume and its fades. -/
theorem issues_eq (h : Planned o url source p) :
    p.issues = o.planIssues source p.outputDuration := by
  have hbase : p.baseSegments.isEmpty = false := by
    rw [Plan.baseSegments, h.timeline_eq]
    rfl
  have htracks : p.issues = (p.audioTracks.mapIdx fun i t => t.issues p i).flatten := by
    rw [Plan.issues, OutputFormat.issues_eq_nil_iff.2 h.format_valid,
      Issue.report_eq_nil_iff.2 hbase, h.timelineIssues_eq_nil, h.texts_eq]
    simp
  rw [htracks]
  by_cases hsound : o.PlaysSound source
  · obtain ⟨t, ht, hvalid, hduration, hvolume, hin, hout⟩ := h.exists_track hsound
    have hinpos := AudioOptions.getD_nonneg h.inRange.audioInRange.fadeIn_nonneg
    have houtpos := AudioOptions.getD_nonneg h.inRange.audioInRange.fadeOut_nonneg
    have hloud : (!(0 ≤ t.volume && t.volume ≤ maxVolume)) = decide (¬o.VolumeFits source) := by
      have hrange := volumeInRange_iff.trans (hvolume ▸ h.volume_inRange_iff)
      rw [Bool.eq_iff_iff, Bool.not_eq_true', decide_eq_true_eq, VolumeFits,
        forall_prop_of_true hsound, ← hvolume, ← hrange, Bool.not_eq_true]
    have hfit : o.FadesFit source p.outputDuration ↔ ¬(0 < t.outputDuration.toInt ∧
        t.outputDuration.toInt < Word.wrap (t.fadeIn.toInt + t.fadeOut.toInt)) := by
      rw [FadesFit, ← hduration, ← hin, ← hout]
      simp [hsound]
    rw [ht, List.mapIdx_singleton, List.flatten_singleton, AudioTrack.issues_eq_of_unshaped hvalid,
      AudioTrack.fadeIssues_eq (hin ▸ hinpos) (hout ▸ houtpos), planIssues, hloud]
    refine congrArg₂ _ ?_ ?_
    · simp only [Issue.report, decide_not, Bool.not_eq_true', decide_eq_false_iff_not, ite_not]
      rfl
    · simp only [hfit, ite_not]
      rfl
  · have hvolume : o.VolumeFits source := fun h => absurd h hsound
    have hfit : o.FadesFit source p.outputDuration := fun h => absurd h hsound
    rw [h.tracks_eq_nil hsound, planIssues_eq_nil_iff.2 ⟨hvolume, hfit⟩]
    rfl

theorem exists_graph_iff (h : Planned o url source p) :
    (∃ g, Graph.ofPlan p = .ok g) ↔ 0 < p.outputDuration := by
  rw [Plan.exists_graph_iff, h.timeline_eq, h.texts_eq, and_iff_left_iff_imp]
  intro _
  refine ⟨List.forall_mem_singleton.2 h.segment_valid.resolves, by simp, fun t ht => ?_⟩
  by_cases hsound : o.PlaysSound source
  · obtain ⟨t', ht', hvalid, _⟩ := h.exists_track hsound
    obtain rfl := List.mem_singleton.1 (ht' ▸ ht)
    exact hvalid.resolves
  · rw [h.tracks_eq_nil hsound] at ht
    cases ht

theorem check_eq_ok_iff (h : Planned o url source p) {summary : PlanSummary} :
    p.check = .ok summary ↔
      (o.VolumeFits source ∧ o.FadesFit source p.outputDuration) ∧ summary = p.summarize := by
  rw [Plan.check_eq_ok_iff, ← Plan.issues_eq_nil_iff, h.issues_eq, planIssues_eq_nil_iff]

end Planned

/-- A planned transform passes the check of a plan exactly if its volume is a number and its fades
fit, and is otherwise faulted for these alone. It compiles exactly if it has a length. -/
theorem check_of_toPlan {id url : String} {p : Plan} (h : o.toPlan id url source = .ok p) :
    ((∃ summary, p.check = .ok summary) ↔
      o.VolumeFits source ∧ o.FadesFit source p.outputDuration) ∧
    (¬(o.VolumeFits source ∧ o.FadesFit source p.outputDuration) →
      p.check = .error (o.planIssues source p.outputDuration)) ∧
    ∀ engine output, engine = .serverFfmpeg ∨ engine = .planExport →
      ((∃ c, p.compile engine output = .ok c) ↔ 0 < p.outputDuration) := by
  obtain ⟨hplanned⟩ := toPlan_ok h
  refine ⟨?_, fun hfaulty => ?_, fun engine output hengine => ?_⟩
  · simp only [hplanned.check_eq_ok_iff, exists_and_left, exists_eq, and_true]
  · rw [← planIssues_eq_nil_iff] at hfaulty
    rw [Plan.check, hplanned.issues_eq]
    cases hissues : o.planIssues source p.outputDuration with
    | nil => exact absurd hissues hfaulty
    | cons => rfl
  · rw [Plan.exists_compile_iff hengine, hplanned.exists_graph_iff]

/-- A second of a file with sound that fades in and out for as long as is asked for. -/
def fading (fade : Int64) : TransformOptions :=
  { default with
    trim := some ⟨0, some 1000⟩
    audio := some { AudioOptions.default with fadeIn := some fade, fadeOut := some fade } }

def heard : SourceInfo := { SourceInfo.unknown with hasAudio := some true }

/-- A request can be planned and its plan not pass the check. -/
theorem toPlan_fading_check_error : ∃ p, (fading 800).toPlan "t" "a.mp4" heard = .ok p ∧
    p.check = .error
      [⟨"audio_tracks[0].fade_out_ms", "fade in + fade out exceed the track duration"⟩] := by
  refine ⟨_, rfl, ?_⟩
  decide +kernel

theorem check_of_fading : ∃ p summary c, (fading 300).toPlan "t" "a.mp4" heard = .ok p ∧
    p.check = .ok summary ∧ p.compile .serverFfmpeg "out.mp4" = .ok c := by
  have hplanned : (fading 300).toPlan "t" "a.mp4" heard = .ok _ := rfl
  obtain ⟨hpasses, -, hcompiles⟩ := check_of_toPlan hplanned
  obtain ⟨summary, hsummary⟩ := hpasses.2 (by decide +kernel)
  obtain ⟨c, hc⟩ := (hcompiles .serverFfmpeg "out.mp4" (.inl rfl)).2 (by decide +kernel)
  exact ⟨_, summary, c, hplanned, hsummary, hc⟩

end TransformOptions

end RenderGateway
