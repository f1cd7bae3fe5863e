import RenderGateway.Transform.Options

/-!
# Options in range

The options of a transform have no violations exactly if they are in range field by field and a
trim window is not empty. The window is only looked at behind fields that are in range, which
makes no difference to whether there is a violation at all.
-/

namespace RenderGateway

/-- What is not below a double is no number or reaches it. -/
theorem Binary64.not_lt_iff {x y : Binary64} :
    ¬x < y ↔ (x.isNaN = true ∨ y.isNaN = true) ∨ y ≤ x := by
  change ¬x.lt y = true ↔ _ ∨ y.le x = true
  cases x with
  | nan => simp [Binary64.lt, isNaN]
  | infinite a =>
    cases y with
    | nan => simp [Binary64.lt, isNaN]
    | infinite b => cases a <;> cases b <;> simp [Binary64.lt, Binary64.le, isNaN]
    | finite y => simp [Binary64.lt, Binary64.le, isNaN]
  | finite x =>
    cases y with
    | nan => simp [Binary64.lt, isNaN]
    | infinite b => simp [Binary64.lt, Binary64.le, isNaN]
    | finite y => simp [Binary64.lt, Binary64.le, isNaN, Rat.not_lt]

theorem Violation.range_eq_nil_iff {ok : Bool} {field : String} :
    range ok field = [] ↔ ok = true := by
  cases ok <;> simp [range]

theorem absentOr_iff {α : Type} {test : α → Bool} {value : Option α} :
    absentOr test value = true ↔ ∀ a, value = some a → test a = true := by
  cases value <;> simp [absentOr]

open Violation (range_eq_nil_iff)

namespace TrimOptions

structure InRange (t : TrimOptions) : Prop where
  start_nonneg : 0 ≤ t.start.toInt
  stop_pos : ∀ e, t.stop = some e → 1 ≤ e.toInt
  start_lt : ∀ e, t.stop = some e → t.start.toInt < e.toInt

theorem violations_eq_nil_iff {t : TrimOptions} : t.violations = [] ↔ t.InRange := by
  have hfields : t.fieldViolations = [] ↔
      (∀ e, t.stop = some e → 1 ≤ e.toInt) ∧ 0 ≤ t.start.toInt := by
    simp [fieldViolations, range_eq_nil_iff, absentOr_iff]
  have hwindow : t.windowViolations = [] ↔
      ∀ e, t.stop = some e → t.start.toInt < e.toInt := by
    rw [windowViolations, ite_eq_left_iff]
    simp [absentOr_iff]
  unfold violations
  split
  · next hnil =>
    rw [hwindow]
    obtain ⟨hstop, hstart⟩ := hfields.1 hnil
    exact ⟨fun h => ⟨hstart, hstop, h⟩, InRange.start_lt⟩
  · next hne =>
    refine iff_of_false hne fun h => hne ?_
    exact hfields.2 ⟨h.stop_pos, h.start_nonneg⟩

end TrimOptions

namespace AudioOptions

structure InRange (a : AudioOptions) : Prop where
  fadeIn_nonneg : ∀ f, a.fadeIn = some f → 0 ≤ f.toInt
  fadeOut_nonneg : ∀ f, a.fadeOut = some f → 0 ≤ f.toInt
  volume : ∀ v, a.volume = some v → v.isNaN = true ∨ 0 ≤ v ∧ v ≤ 2

theorem volumePasses_iff {volume : Binary64} : volumePasses volume = true ↔
    volume.isNaN = true ∨ 0 ≤ volume ∧ volume ≤ 2 := by
  have hzero : (0 : Binary64).isNaN = false := by decide +kernel
  have hmax : maxVolume.isNaN = false := by decide +kernel
  rw [volumePasses, Bool.and_eq_true, Bool.not_eq_true', Bool.not_eq_true', decide_eq_false_iff_not,
    decide_eq_false_iff_not, Binary64.not_lt_iff, Binary64.not_lt_iff, hzero, hmax, or_and_left]
  simp only [Bool.false_eq_true, or_false, false_or]
  rfl

theorem violations_eq_nil_iff {a : AudioOptions} : a.violations = [] ↔ a.InRange := by
  simp only [violations, List.append_eq_nil_iff, range_eq_nil_iff, absentOr_iff,
    decide_eq_true_eq, volumePasses_iff]
  exact ⟨fun ⟨⟨hin, hout⟩, hv⟩ => ⟨hin, hout, hv⟩,
    fun h => ⟨⟨h.fadeIn_nonneg, h.fadeOut_nonneg⟩, h.volume⟩⟩

/-- A fade that is not asked for has no length. -/
theorem getD_nonneg {fade : Option Int64} (h : ∀ f, fade = some f → 0 ≤ f.toInt) :
    0 ≤ (fade.getD 0).toInt := by
  cases fade with
  | none => exact Int.le_refl 0
  | some f => exact h f rfl

end AudioOptions

theorem ResizeOptions.violations_eq_nil_iff {r : ResizeOptions} : r.violations = [] ↔
    (2 ≤ r.height.toNat ∧ r.height.toNat ≤ 7680) ∧ 2 ≤ r.width.toNat ∧ r.width.toNat ≤ 7680 := by
  have hedge (n : UInt32) : inRange n = true ↔ 2 ≤ n.toNat ∧ n.toNat ≤ 7680 := by
    rw [inRange, Bool.and_eq_true, decide_eq_true_eq, decide_eq_true_eq, UInt32.le_iff_toNat_le,
      UInt32.le_iff_toNat_le]
    rfl
  rw [violations, List.append_eq_nil_iff, range_eq_nil_iff, range_eq_nil_iff, hedge, hedge]

namespace TransformOptions

/-- Options that are in range field by field. -/
structure InRange (o : TransformOptions) : Prop where
  audio : ∀ a, o.audio = some a → a.InRange
  resize : ∀ r, o.resize = some r → (2 ≤ r.height.toNat ∧ r.height.toNat ≤ 7680) ∧
    2 ≤ r.width.toNat ∧ r.width.toNat ≤ 7680
  speed : ∀ s, o.speed = some s → 0 < s ∧ s ≤ 16
  trim : ∀ t, o.trim = some t → t.InRange

variable {o : TransformOptions}

theorem violations_eq_nil_iff : o.violations = [] ↔ o.InRange := by
  have hpart {α : Type} (part : Option α) (violations : α → List Violation) :
      (part.map violations).getD [] = [] ↔ ∀ a, part = some a → violations a = [] := by
    cases part <;> simp
  simp only [violations, List.append_eq_nil_iff, hpart, range_eq_nil_iff, absentOr_iff,
    AudioOptions.violations_eq_nil_iff, ResizeOptions.violations_eq_nil_iff,
    TrimOptions.violations_eq_nil_iff, speedInRange_iff]
  exact ⟨fun ⟨⟨⟨ha, hr⟩, hs⟩, ht⟩ => ⟨ha, hr, hs, ht⟩,
    fun h => ⟨⟨⟨h.audio, h.resize⟩, h.speed⟩, h.trim⟩⟩

theorem InRange.playingSpeed (h : o.InRange) : 0 < o.speed.getD 1 ∧ o.speed.getD 1 ≤ 16 := by
  cases hs : o.speed with
  | none => exact speedInRange_iff.1 (by decide +kernel)
  | some s => exact h.speed s hs

theorem InRange.trimStart_nonneg (h : o.InRange) :
    0 ≤ ((o.trim.map TrimOptions.start).getD 0).toInt := by
  cases ht : o.trim with
  | none => decide
  | some t => exact (h.trim t ht).start_nonneg

theorem InRange.audioInRange (h : o.InRange) : (o.audio.getD .default).InRange := by
  cases ha : o.audio with
  | none => exact AudioOptions.violations_eq_nil_iff.1 rfl
  | some a => exact h.audio a ha

end TransformOptions

end RenderGateway
