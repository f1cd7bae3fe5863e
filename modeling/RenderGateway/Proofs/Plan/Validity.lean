import Mathlib.Algebra.Group.Nat.Even
import RenderGateway.Proofs.Plan.OverlaySyntax

/-!
# Valid parts of a plan

What it takes for a format, a segment, a track or a text to be renderable, said without the check
that looks for issues. For each part `issues_eq_nil_iff` says that the check has nothing to report
exactly if the part is valid. Of a segment this is what it can be asked for by itself; its place
after the earlier segments is left to the timeline.

The check takes its sums and differences in words. What is valid is therefore said twice, in the
arithmetic of words and in the exact one. The two come to the same for parts whose sums and
differences are words, which `FitsWords` asks for.
-/

namespace RenderGateway

open Issue (report report_eq_nil_iff)

/-- How sums and differences of times are taken. -/
inductive Arithmetic
  | exact
  | words

/-- What is kept of an exact result. -/
def Arithmetic.reduce : Arithmetic → Int → Int
  | exact => fun n => n
  | words => Word.wrap

/-- No more than one millisecond apart. -/
def Near (r : Arithmetic) (a b : Int) : Prop := r.reduce (r.reduce (a - b)).natAbs ≤ 1

theorem offBy_eq_false_iff_near {a b : Int} : offBy a b = false ↔ Near .words a b :=
  offBy_eq_false_iff

theorem near_exact_iff {a b : Int} : Near .exact a b ↔ (a - b).natAbs ≤ 1 := by
  simp only [Near, Arithmetic.reduce]
  omega

/-- A distance that is a word is taken as it is. -/
theorem near_words_iff {a b : Int} (h : (a - b).natAbs < 2 ^ 63) :
    Near .words a b ↔ Near .exact a b := by
  have hdifference : Word.wrap (a - b) = a - b := Word.wrap_eq_self (by omega) (by omega)
  have hdistance : Word.wrap (a - b).natAbs = (a - b).natAbs :=
    Word.wrap_eq_self (by omega) (by omega)
  simp only [Near, Arithmetic.reduce, hdifference, hdistance]

theorem even_toNat_iff {n : UInt32} : Even n.toNat ↔ n % 2 = 0 := by
  rw [← UInt32.toNat_inj, UInt32.toNat_mod, Nat.even_iff]
  rfl

/-- A length or a height of a picture in the pixel format of the output. -/
structure IsFrameEdge (n : UInt32) : Prop where
  pos : 1 ≤ n.toNat
  le : n.toNat ≤ 7680
  even : Even n.toNat

namespace OutputFormat

structure Valid (f : OutputFormat) : Prop where
  width : IsFrameEdge f.width
  height : IsFrameEdge f.height
  fps_pos : 1 ≤ f.fps.toNat
  fps_le : f.fps.toNat ≤ 120
  codec_fits : f.codec.fits f.container = true

theorem dimensionIssues_eq_nil_iff {name : String} {n : UInt32} :
    dimensionIssues name n = [] ↔ IsFrameEdge n := by
  have hzero : n = 0 ↔ n.toNat = 0 := UInt32.toNat_inj.symm
  have hlarge : maxDimension < n ↔ 7680 < n.toNat := UInt32.lt_iff_toNat_lt
  unfold dimensionIssues
  by_cases hrange : n = 0 ∨ maxDimension < n
  · rw [if_pos hrange]
    rw [hzero, hlarge] at hrange
    exact iff_of_false (List.cons_ne_nil _ _) fun h => by have := h.pos; have := h.le; omega
  · rw [if_neg hrange, report_eq_nil_iff, decide_eq_false_iff_not, not_not, ← even_toNat_iff]
    rw [hzero, hlarge] at hrange
    exact ⟨fun heven => ⟨by omega, by omega, heven⟩, IsFrameEdge.even⟩

theorem issues_eq_nil_iff {f : OutputFormat} : f.issues = [] ↔ f.Valid := by
  have hfps : (decide (f.fps = 0) || decide (maxFps < f.fps)) = false ↔
      1 ≤ f.fps.toNat ∧ f.fps.toNat ≤ 120 := by
    have hzero : f.fps = 0 ↔ f.fps.toNat = 0 := UInt32.toNat_inj.symm
    have hlarge : maxFps < f.fps ↔ 120 < f.fps.toNat := UInt32.lt_iff_toNat_lt
    rw [Bool.or_eq_false_iff, decide_eq_false_iff_not, decide_eq_false_iff_not, hzero, hlarge]
    omega
  simp only [issues, List.append_eq_nil_iff, dimensionIssues_eq_nil_iff, report_eq_nil_iff, hfps,
    Bool.not_eq_false']
  constructor
  · rintro ⟨⟨⟨hwidth, hheight⟩, hpos, hle⟩, hfits⟩
    exact ⟨hwidth, hheight, hpos, hle, hfits⟩
  · intro h
    exact ⟨⟨⟨h.width, h.height⟩, h.fps_pos, h.fps_le⟩, h.codec_fits⟩

end OutputFormat

namespace Segment

/-- A segment that reads a window of a known asset and fills its place on the timeline. -/
structure Valid (r : Arithmetic) (p : Plan) (s : Segment) : Prop where
  resolves : (p.segmentAsset s).isSome = true
  trimStart_nonneg : 0 ≤ s.trimStart.toInt
  trim_lt : s.trimStart.toInt < s.trimEnd.toInt
  trimEnd_le : ∀ d, s.sourceDuration = some d → s.trimEnd.toInt ≤ d.toInt
  speed_pos : 0 < s.speed
  speed_le : s.speed ≤ 16
  duration : Near r s.outputDuration.toInt (playedDuration s.trimStart s.trimEnd s.speed).toInt
  timelineStart_nonneg : 0 ≤ s.timelineStart.toInt
  window : Near r (s.timelineEnd.toInt - s.timelineStart.toInt) s.outputDuration.toInt
  transition : ∀ t, s.transition = some t →
    0 < t.duration.toInt ∧ t.duration.toInt ≤ s.outputDuration.toInt

/-- The distances that the check takes of a segment are words. -/
structure FitsWords (s : Segment) : Prop where
  duration : 0 < s.speed → s.speed ≤ 16 → s.trimStart.toInt < s.trimEnd.toInt →
    (s.outputDuration.toInt -
      (playedDuration s.trimStart s.trimEnd s.speed).toInt).natAbs < 2 ^ 63
  window : (s.timelineEnd.toInt - s.timelineStart.toInt - s.outputDuration.toInt).natAbs < 2 ^ 63

variable {s : Segment} {path : String → String}

theorem valid_words_iff {p : Plan} (h : s.FitsWords) :
    s.Valid .words p ↔ s.Valid .exact p := by
  have hwindow := near_words_iff h.window
  constructor
  · intro hvalid
    have hduration := near_words_iff (h.duration hvalid.speed_pos hvalid.speed_le hvalid.trim_lt)
    exact { hvalid with duration := hduration.1 hvalid.duration, window := hwindow.1 hvalid.window }
  · intro hvalid
    have hduration := near_words_iff (h.duration hvalid.speed_pos hvalid.speed_le hvalid.trim_lt)
    exact { hvalid with duration := hduration.2 hvalid.duration, window := hwindow.2 hvalid.window }

theorem trimIssues_eq_nil_iff : s.trimIssues path = [] ↔
    0 ≤ s.trimStart.toInt ∧ s.trimStart.toInt < s.trimEnd.toInt ∧
      ∀ d, s.sourceDuration = some d → s.trimEnd.toInt ≤ d.toInt := by
  unfold trimIssues
  cases s.sourceDuration <;> simp

theorem speedIssues_eq_nil_iff : s.speedIssues path = [] ↔
    (0 < s.speed ∧ s.speed ≤ 16) ∧ (s.trimStart.toInt < s.trimEnd.toInt →
      Near .words s.outputDuration.toInt
        (playedDuration s.trimStart s.trimEnd s.speed).toInt) := by
  unfold speedIssues
  rw [← speedInRange_iff]
  cases hspeed : speedInRange s.speed with
  | false => simp
  | true =>
    by_cases htrim : s.trimStart.toInt < s.trimEnd.toInt
    · simp [htrim, offBy_eq_false_iff_near]
    · simp [htrim]

theorem windowIssues_eq_nil_iff : s.windowIssues path = [] ↔
    0 ≤ s.timelineStart.toInt ∧
      Near .words (s.timelineEnd.toInt - s.timelineStart.toInt) s.outputDuration.toInt := by
  simp [windowIssues, offBy_eq_false_iff_near]

theorem transitionIssues_eq_nil_iff : s.transitionIssues path = [] ↔
    ∀ t, s.transition = some t →
      0 < t.duration.toInt ∧ t.duration.toInt ≤ s.outputDuration.toInt := by
  unfold transitionIssues
  cases s.transition <;> simp

end Segment

namespace AudioTrack

/-- A track that reads a window of a known asset and keeps its fades and its end. -/
structure Valid (r : Arithmetic) (p : Plan) (t : AudioTrack) : Prop where
  resolves : (p.audioAsset t).isSome = true
  trimStart_nonneg : 0 ≤ t.trimStart.toInt
  trim_lt : t.trimStart.toInt < t.trimEnd.toInt
  timelineStart_nonneg : 0 ≤ t.timelineStart.toInt
  volume_nonneg : 0 ≤ t.volume
  volume_le : t.volume ≤ 2
  speed_pos : 0 < t.speed
  speed_le : t.speed ≤ 16
  fadeIn_nonneg : 0 ≤ t.fadeIn.toInt
  fadeOut_nonneg : 0 ≤ t.fadeOut.toInt
  fades_fit : 0 < t.outputDuration.toInt →
    r.reduce (t.fadeIn.toInt + t.fadeOut.toInt) ≤ t.outputDuration.toInt
  timelineEnd : ∀ e, t.timelineEnd = some e →
    Near r (e.toInt - t.timelineStart.toInt) t.outputDuration.toInt

/-- The sum and the distance that the check takes of a track are words. -/
structure FitsWords (t : AudioTrack) : Prop where
  fades : 0 ≤ t.fadeIn.toInt → 0 ≤ t.fadeOut.toInt → 0 < t.outputDuration.toInt →
    t.fadeIn.toInt + t.fadeOut.toInt < 2 ^ 63
  window : ∀ e, t.timelineEnd = some e →
    (e.toInt - t.timelineStart.toInt - t.outputDuration.toInt).natAbs < 2 ^ 63

variable {t : AudioTrack} {path : String → String}

theorem valid_words_iff {p : Plan} (h : t.FitsWords) :
    t.Valid .words p ↔ t.Valid .exact p := by
  have hend : (∀ e, t.timelineEnd = some e →
        Near .words (e.toInt - t.timelineStart.toInt) t.outputDuration.toInt) ↔
      ∀ e, t.timelineEnd = some e →
        Near .exact (e.toInt - t.timelineStart.toInt) t.outputDuration.toInt :=
    forall₂_congr fun e he => near_words_iff (h.window e he)
  have hfit (hin : 0 ≤ t.fadeIn.toInt) (hout : 0 ≤ t.fadeOut.toInt) :
      (0 < t.outputDuration.toInt →
          Arithmetic.words.reduce (t.fadeIn.toInt + t.fadeOut.toInt) ≤ t.outputDuration.toInt) ↔
        (0 < t.outputDuration.toInt →
          Arithmetic.exact.reduce (t.fadeIn.toInt + t.fadeOut.toInt) ≤ t.outputDuration.toInt) := by
    refine forall_congr' fun hlength => ?_
    have hsum : Word.wrap (t.fadeIn.toInt + t.fadeOut.toInt) = t.fadeIn.toInt + t.fadeOut.toInt :=
      Word.wrap_eq_self (by omega) (h.fades hin hout hlength)
    simp only [Arithmetic.reduce, hsum]
  constructor
  · intro hvalid
    exact { hvalid with
      fades_fit := (hfit hvalid.fadeIn_nonneg hvalid.fadeOut_nonneg).1 hvalid.fades_fit
      timelineEnd := hend.1 hvalid.timelineEnd }
  · intro hvalid
    exact { hvalid with
      fades_fit := (hfit hvalid.fadeIn_nonneg hvalid.fadeOut_nonneg).2 hvalid.fades_fit
      timelineEnd := hend.2 hvalid.timelineEnd }

theorem fadeIssues_eq_nil_iff : t.fadeIssues path = [] ↔
    0 ≤ t.fadeIn.toInt ∧ 0 ≤ t.fadeOut.toInt ∧ (0 < t.outputDuration.toInt →
      Word.wrap (t.fadeIn.toInt + t.fadeOut.toInt) ≤ t.outputDuration.toInt) := by
  unfold fadeIssues
  by_cases hneg : t.fadeIn.toInt < 0 ∨ t.fadeOut.toInt < 0
  · rw [if_pos hneg]
    exact iff_of_false (List.cons_ne_nil _ _) fun h => by omega
  · rw [if_neg hneg, report_eq_nil_iff, Bool.and_eq_false_iff, decide_eq_false_iff_not,
      decide_eq_false_iff_not]
    omega

/-- Fades that are no shorter than nothing are too long at most. -/
theorem fadeIssues_eq (hin : 0 ≤ t.fadeIn.toInt) (hout : 0 ≤ t.fadeOut.toInt) :
    t.fadeIssues path =
      if 0 < t.outputDuration.toInt ∧
          t.outputDuration.toInt < Word.wrap (t.fadeIn.toInt + t.fadeOut.toInt) then
        [⟨path "fade_out_ms", "fade in + fade out exceed the track duration"⟩]
      else [] := by
  rw [fadeIssues, if_neg (by omega), report]
  simp only [Bool.and_eq_true, decide_eq_true_eq]

theorem endIssues_eq_nil_iff : t.endIssues path = [] ↔
    ∀ e, t.timelineEnd = some e →
      Near .words (e.toInt - t.timelineStart.toInt) t.outputDuration.toInt := by
  unfold endIssues
  cases t.timelineEnd <;> simp [offBy_eq_false_iff_near]

theorem issues_eq_nil_iff {p : Plan} {index : Nat} : t.issues p index = [] ↔ t.Valid .words p := by
  unfold issues
  simp only [List.append_eq_nil_iff, report_eq_nil_iff, Bool.not_eq_false', volumeInRange_iff,
    Option.isNone_eq_false_iff, decide_eq_false_iff_not, Int.not_lt, Int.not_le]
  cases hspeed : speedInRange t.speed with
  | false =>
    refine iff_of_false (by simp) fun h => ?_
    rw [speedInRange_iff.2 ⟨h.speed_pos, h.speed_le⟩] at hspeed
    cases hspeed
  | true =>
    have hrange := speedInRange_iff.1 hspeed
    rw [Bool.not_true, if_neg Bool.false_ne_true, List.append_eq_nil_iff, fadeIssues_eq_nil_iff,
      endIssues_eq_nil_iff]
    constructor
    · rintro ⟨⟨⟨⟨⟨hasset, hstart⟩, htrim⟩, hplace⟩, hlow, hhigh⟩, ⟨hin, hout, hfit⟩, hend⟩
      exact ⟨hasset, hstart, htrim, hplace, hlow, hhigh, hrange.1, hrange.2, hin, hout, hfit, hend⟩
    · intro h
      exact ⟨⟨⟨⟨⟨h.resolves, h.trimStart_nonneg⟩, h.trim_lt⟩, h.timelineStart_nonneg⟩,
        h.volume_nonneg, h.volume_le⟩, ⟨h.fadeIn_nonneg, h.fadeOut_nonneg, h.fades_fit⟩,
        h.timelineEnd⟩

/-- The track as loud as it is in its file, from its first moment to its last. -/
def unshaped (t : AudioTrack) : AudioTrack := { t with volume := 1, fadeIn := 0, fadeOut := 0 }

/-- A track that is valid but for its volume and its fades is faulted for them alone. -/
theorem issues_eq_of_unshaped {p : Plan} (h : t.unshaped.Valid .words p) (index : Nat) :
    let path (field : String) := s!"audio_tracks[{index}].{field}"
    t.issues p index =
      report (!(0 ≤ t.volume && t.volume ≤ maxVolume)) (path "volume")
          s!"must be between 0 and {maxVolume.display}" ++
        t.fadeIssues path := by
  intro path
  have hnil : t.unshaped.issues p index = [] := issues_eq_nil_iff.2 h
  have hspeed : speedInRange t.speed = true := speedInRange_iff.2 ⟨h.speed_pos, h.speed_le⟩
  unfold issues Plan.audioAsset unshaped endIssues outputDuration at hnil
  unfold issues Plan.audioAsset endIssues outputDuration
  simp only [hspeed, Bool.not_true, Bool.false_eq_true, if_false, List.append_eq_nil_iff] at hnil
  obtain ⟨⟨⟨⟨⟨hasset, hstart⟩, htrim⟩, hplace⟩, -⟩, -, hend⟩ := hnil
  simp only [path, hasset, hstart, htrim, hplace, hspeed, hend, Bool.not_true, Bool.false_eq_true,
    if_false, List.nil_append, List.append_nil]

end AudioTrack

namespace TextOverlay

/-- A text that is there to be read for a while and cannot leave its place in the graph. -/
structure Valid (o : TextOverlay) : Prop where
  content : o.content ≠ ""
  timelineStart_nonneg : 0 ≤ o.timelineStart.toInt
  timeline_lt : o.timelineStart.toInt < o.timelineEnd.toInt
  fontSize_pos : 0 < o.fontSize.toNat
  opacity : ∀ b, o.background = some b → 0 ≤ b.opacity ∧ b.opacity ≤ 1
  syntaxValid : o.SyntaxValid

theorem valid_iff {o : TextOverlay} : o.Valid ↔
    ((((o.content ≠ "" ∧ 0 ≤ o.timelineStart.toInt) ∧ o.timelineStart.toInt < o.timelineEnd.toInt) ∧
      0 < o.fontSize.toNat) ∧ ∀ b, o.background = some b → 0 ≤ b.opacity ∧ b.opacity ≤ 1) ∧
      o.SyntaxValid := by
  constructor
  · intro h
    exact ⟨⟨⟨⟨⟨h.content, h.timelineStart_nonneg⟩, h.timeline_lt⟩, h.fontSize_pos⟩, h.opacity⟩,
      h.syntaxValid⟩
  · rintro ⟨⟨⟨⟨⟨hcontent, hstart⟩, hwindow⟩, hpos⟩, hopacity⟩, hforms⟩
    exact ⟨hcontent, hstart, hwindow, hpos, hopacity, hforms⟩

theorem issues_eq_nil_iff {index : Nat} {o : TextOverlay} : o.issues index = [] ↔ o.Valid := by
  have hsize : ¬o.fontSize = 0 ↔ 0 < o.fontSize.toNat := by
    rw [← UInt32.toNat_inj]
    exact Nat.pos_iff_ne_zero.symm
  unfold issues
  simp only [List.append_eq_nil_iff, report_eq_nil_iff, List.map_eq_nil_iff,
    syntaxIssues_eq_nil_iff, decide_eq_false_iff_not, Int.not_lt, Int.not_le, hsize, valid_iff]
  refine and_congr_left' (and_congr_right' ?_)
  cases o.background <;> simp

end TextOverlay

end RenderGateway
