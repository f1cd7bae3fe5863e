import RenderGateway.Proofs.Number.Rounding
import RenderGateway.Render.Settings

/-!
# Time limits

A render may take as long as its output times a factor, kept between two bounds. The product is
made a duration before it is kept between them, and no duration has `2 ^ 64` seconds. Every output
has a limit exactly if the factor is below 2000: rounding keeps the order, so that it is enough to
look at the longest output and at the factors next to 2000.
-/

namespace RenderGateway

namespace Duration

/-- The least number of seconds that no duration has. -/
def endOfSeconds : Binary64.Finite := ⟨false, 2 ^ 52, 12, by decide⟩

theorem toRat_endOfSeconds : endOfSeconds.toRat = 2 ^ 64 := by
  norm_num [endOfSeconds, Binary64.Finite.toRat, Binary64.Finite.magnitude]

/-- A number of seconds without a minus is that of a duration exactly if it is finite and below
`2 ^ 64`. -/
theorem isSome_ofSeconds?_iff {x : Binary64} (h : x.isNegative = false) :
    (ofSeconds? x).isSome = true ↔ ∃ y : Binary64.Finite, x = .finite y ∧ y.toRat < 2 ^ 64 := by
  cases x with
  | nan => exact iff_of_false (by simp [ofSeconds?]) (by simp)
  | infinite negative => exact iff_of_false (by simp [ofSeconds?]) (by simp)
  | finite x =>
    have hn : x.negative = false := h
    have hbound : ((2 ^ 64 : Nat) : ℚ) = 2 ^ 64 := by norm_num
    simp only [ofSeconds?, hn, hbound, Binary64.Finite.toRat_eq hn, Bool.false_and,
      Bool.false_eq_true, if_false, Binary64.finite.injEq, exists_eq_left']
    split <;> simp [*]

theorem exists_ofSeconds? {x : Binary64} {b : Binary64.Finite} (h : x.Within b)
    (hb : b.magnitude < 2 ^ 64) : ∃ d, ofSeconds? x = some d := by
  obtain ⟨x, rfl, hn, hle⟩ := h
  have hsign : (Binary64.finite x).isNegative = false := hn
  refine Option.isSome_iff_exists.1 ((isSome_ofSeconds?_iff hsign).2 ⟨x, rfl, ?_⟩)
  rw [Binary64.Finite.toRat_eq hn]
  exact hle.trans_lt hb

theorem ofSeconds?_eq_none {x : Binary64} (hsign : x.isNegative = false)
    (h : .finite endOfSeconds ≤ x) : ofSeconds? x = none := by
  rw [← Option.not_isSome_iff_eq_none, isSome_ofSeconds?_iff hsign]
  rintro ⟨y, rfl, hlt⟩
  rw [Binary64.finite_le_finite_iff, toRat_endOfSeconds] at h
  exact absurd hlt h.not_gt

end Duration

namespace RenderSettings

variable {s : RenderSettings}

/-! ### The longest output and the factors next to 2000 -/

/-- The longest output in milliseconds, to the nearest double. -/
def longest : Binary64.Finite := ⟨false, 2 ^ 52, 11, by decide⟩

/-- The same in seconds. -/
def longestSeconds : Binary64.Finite := ⟨false, 4611686018427388, 1, by decide⟩

def thousand : Binary64.Finite := ⟨false, 1000 * 2 ^ 43, -43, by decide⟩

def twoThousand : Binary64.Finite := ⟨false, 2000 * 2 ^ 42, -42, by decide⟩

/-- The double before 2000. -/
def belowTwoThousand : Binary64.Finite := ⟨false, 2000 * 2 ^ 42 - 1, -42, by decide⟩

/-- The double before `2 ^ 64`. -/
def lastSeconds : Binary64.Finite := ⟨false, 2 ^ 53 - 1, 11, by decide⟩

theorem ofInt_maxValue : Binary64.ofInt Int64.maxValue.toInt = .finite longest := rfl

theorem thousand_eq : (1000 : Binary64) = .finite thousand := rfl

theorem twoThousand_eq : (2000 : Binary64) = .finite twoThousand := rfl

/-- The longest output in seconds, and that times the factors next to 2000. -/
theorem longest_scaled :
    (.finite longest / .finite thousand : Binary64) = .finite longestSeconds ∧
    (.finite longestSeconds * .finite belowTwoThousand : Binary64) = .finite lastSeconds ∧
    (.finite longestSeconds * .finite twoThousand : Binary64) = .finite Duration.endOfSeconds := by
  decide +kernel

theorem default_limitFactor : 0 < default.limitFactor ∧ default.limitFactor < 2000 := by
  decide +kernel

theorem seconds_within {duration : Int} (h : duration ≤ Int64.maxValue.toInt) :
    (Binary64.ofInt (max duration 0) / 1000).Within longestSeconds := by
  have hmilliseconds : (Binary64.ofInt (max duration 0)).Within longest :=
    Binary64.within_ofInt (le_max_right _ _) (max_le h (by decide)) rfl ofInt_maxValue
  rw [thousand_eq]
  exact hmilliseconds.div rfl rfl (by decide) rfl longest_scaled.1

theorem factor_within (hpos : 0 < s.limitFactor) (h : s.limitFactor < 2000) :
    s.limitFactor.Within belowTwoThousand := by
  have hsign := Binary64.isNegative_of_pos hpos
  rw [twoThousand_eq] at h
  cases hfactor : s.limitFactor with
  | nan =>
    rw [hfactor] at h
    cases h
  | infinite negative =>
    rw [hfactor] at h hsign
    rw [show negative = false from hsign] at h
    cases h
  | finite x =>
    rw [hfactor] at h hsign
    have hlt : x.toRat < twoThousand.toRat := of_decide_eq_true h
    rw [Binary64.Finite.toRat_eq hsign, Binary64.Finite.toRat_eq rfl] at hlt
    exact ⟨x, rfl, hsign, Binary64.Finite.magnitude_le_of_lt (by decide) hlt⟩

/-- Below 2000 even the longest output has a limit. -/
theorem exists_timeLimit?_of_lt (hpos : 0 < s.limitFactor) (h : s.limitFactor < 2000)
    {duration : Int} (hd : duration ≤ Int64.maxValue.toInt) :
    ∃ limit, s.timeLimit? duration = some limit := by
  have hscaled : (s.scaledSeconds duration).Within lastSeconds :=
    (seconds_within hd).mul (factor_within hpos h) rfl rfl rfl longest_scaled.2.1
  have hlast : lastSeconds.magnitude < 2 ^ 64 := by
    norm_num [lastSeconds, Binary64.Finite.magnitude]
  obtain ⟨scaled, hscaled⟩ := Duration.exists_ofSeconds? hscaled hlast
  exact ⟨_, by rw [timeLimit?, hscaled]; rfl⟩

theorem exists_timeLimit? (h : s.limitFactor = default.limitFactor)
    {duration : Int} (hd : duration ≤ Int64.maxValue.toInt) :
    ∃ limit, s.timeLimit? duration = some limit :=
  exists_timeLimit?_of_lt (h ▸ default_limitFactor.1) (h ▸ default_limitFactor.2) hd

theorem isNegative_scaledSeconds (hpos : 0 < s.limitFactor) (duration : Int) :
    (s.scaledSeconds duration).isNegative = false :=
  Binary64.isNegative_mul
    (Binary64.isNegative_div (Binary64.isNegative_ofInt (le_max_right _ _)) rfl)
    (Binary64.isNegative_of_pos hpos)

/-- From 2000 on the longest output has none. -/
theorem timeLimit?_longest_eq_none (hpos : 0 < s.limitFactor) (h : ¬ s.limitFactor < 2000) :
    s.timeLimit? Int64.maxValue.toInt = none := by
  have hseconds : Binary64.ofInt (max Int64.maxValue.toInt 0) / 1000 =
      .finite longestSeconds := by
    rw [max_eq_left (by decide), ofInt_maxValue, thousand_eq, longest_scaled.1]
  have hscaled : s.scaledSeconds Int64.maxValue.toInt =
      .finite longestSeconds * s.limitFactor := by rw [scaledSeconds, hseconds]
  have hsign := isNegative_scaledSeconds hpos Int64.maxValue.toInt
  have hlarge : .finite Duration.endOfSeconds ≤ s.scaledSeconds Int64.maxValue.toInt := by
    have hfactorSign := Binary64.isNegative_of_pos hpos
    rw [hscaled]
    cases hfactor : s.limitFactor with
    | nan =>
      rw [hfactor] at hpos
      cases hpos
    | infinite negative =>
      rw [hfactor] at hfactorSign
      rw [show negative = false from hfactorSign]
      rfl
    | finite x =>
      rw [hfactor] at h hfactorSign
      have hle : twoThousand.magnitude ≤ x.magnitude := by
        rw [← Binary64.Finite.toRat_eq hfactorSign, ← Binary64.Finite.toRat_eq (x := twoThousand) rfl]
        rw [twoThousand_eq] at h
        exact not_lt.1 fun hlt => h (decide_eq_true hlt)
      rw [← longest_scaled.2.2]
      exact Binary64.mul_le_mul_left rfl rfl hfactorSign hle
  rw [timeLimit?, Duration.ofSeconds?_eq_none hsign hlarge]
  rfl

/-- A limit is between the bounds, of which the least one counts if they are in the wrong order. -/
theorem timeLimit?_bounds {duration : Int} {limit : Duration}
    (h : s.timeLimit? duration = some limit) :
    s.leastLimit ≤ limit ∧ limit ≤ max s.greatestLimit s.leastLimit := by
  obtain ⟨scaled, -, rfl⟩ := Option.map_eq_some_iff.1 h
  exact ⟨Nat.le_max_left .., Nat.max_le.2 ⟨Nat.le_max_right .., Nat.min_le_right ..⟩⟩

/-- Every factor from an environment is positive. -/
theorem limitFactor_pos (e : Environment) : 0 < (ofEnvironment e).limitFactor := by
  change 0 < ((e.binary64? "RENDER_TIMEOUT_FACTOR").filter (0 < ·)).getD default.limitFactor
  cases h : (e.binary64? "RENDER_TIMEOUT_FACTOR").filter (0 < ·) with
  | none => exact default_limitFactor.1
  | some factor => exact of_decide_eq_true (Option.filter_eq_some_iff.1 h).2

/-- With the settings of an environment a limit that there is lies between the bounds. There is one
exactly if the output times the factor is below `2 ^ 64` seconds, and one for every output exactly
if the factor is below 2000. -/
theorem timeLimit?_ofEnvironment (e : Environment) :
    (∀ duration limit, (ofEnvironment e).timeLimit? duration = some limit →
      (ofEnvironment e).leastLimit ≤ limit ∧
        limit ≤ max (ofEnvironment e).greatestLimit (ofEnvironment e).leastLimit) ∧
    (∀ duration, ((ofEnvironment e).timeLimit? duration).isSome = true ↔
      ∃ x : Binary64.Finite, (ofEnvironment e).scaledSeconds duration = .finite x ∧
        x.toRat < 2 ^ 64) ∧
    ((∀ duration : Int64, ((ofEnvironment e).timeLimit? duration.toInt).isSome = true) ↔
      (ofEnvironment e).limitFactor < 2000) := by
  have hpos := limitFactor_pos e
  refine ⟨fun duration limit => timeLimit?_bounds, fun duration => ?_, ?_, ?_⟩
  · rw [timeLimit?, Option.isSome_map]
    exact Duration.isSome_ofSeconds?_iff (isNegative_scaledSeconds hpos duration)
  · intro hall
    by_contra hlarge
    have hlongest := hall Int64.maxValue
    rw [timeLimit?_longest_eq_none hpos hlarge] at hlongest
    cases hlongest
  · intro hsmall duration
    exact Option.isSome_iff_exists.2
      (exists_timeLimit?_of_lt hpos hsmall (Int64.le_iff_toInt_le.1 duration.le_maxValue))

theorem timeLimit?_longestOutput : ∃ limit,
    (ofEnvironment [("RENDER_TIMEOUT_FACTOR", "1999.5")]).timeLimit? Int64.maxValue.toInt =
      some limit ∧ RenderSettings.default.leastLimit ≤ limit ∧
      limit ≤ RenderSettings.default.greatestLimit := by
  obtain ⟨hbounds, -, hall⟩ :=
    timeLimit?_ofEnvironment [("RENDER_TIMEOUT_FACTOR", "1999.5")]
  obtain ⟨limit, hlimit⟩ :=
    Option.isSome_iff_exists.1 (hall.2 (by decide +kernel) Int64.maxValue)
  exact ⟨limit, hlimit, hbounds _ limit hlimit⟩

/-- With a large factor the limit of a minute's output is no duration before it can be kept below
the greatest one. -/
theorem timeLimit?_largeFactor :
    (ofEnvironment [("RENDER_TIMEOUT_FACTOR", "1e20")]).timeLimit? 60000 = none := by
  decide +kernel

end RenderSettings

end RenderGateway
