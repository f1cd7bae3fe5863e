import RenderGateway.Graph.Filter
import RenderGateway.Proofs.Graph.FactorText
import RenderGateway.Proofs.Number.Scaling

/-!
# The tempo that stages play

A stage plays the factor that its text writes, and stages in a row play the product. The stages of
one half and of two are exact, and so is the rest after each of them, so the only errors are that of
the last stage, which is written with six places, and that of a rest so near to one that no stage
is left.
-/

namespace RenderGateway

namespace Binary64

/-- A double that is a given number, with a plus in front. -/
def Denotes (x : Binary64) (t : ℚ) : Prop :=
  ∃ y : Finite, x = .finite y ∧ y.negative = false ∧ y.magnitude = t

/-- The double that halves. -/
def half : Binary64 := .ofRat (mkRat 1 2)

theorem denotes_two : Denotes 2 2 := by
  refine ⟨⟨false, 2 ^ 52, -51, by decide⟩, by decide +kernel, rfl, ?_⟩
  rw [Finite.magnitude]
  norm_num

theorem denotes_half : Denotes half (1 / 2) := by
  refine ⟨⟨false, 2 ^ 52, -53, by decide⟩, by decide +kernel, rfl, ?_⟩
  rw [Finite.magnitude]
  norm_num

namespace Denotes

variable {x y : Binary64} {s t : ℚ}

theorem lt_iff (hx : x.Denotes s) (hy : y.Denotes t) : x < y ↔ s < t := by
  obtain ⟨a, rfl, ha, rfl⟩ := hx
  obtain ⟨b, rfl, hb, rfl⟩ := hy
  exact finite_lt_finite_iff ha hb

/-- A quotient of two numbers is exact where it is a double itself. -/
theorem div (hx : x.Denotes s) (hy : y.Denotes t) (hs : 0 < s) (ht : 0 < t)
    (hquotient : ∃ z : Finite, z.negative = false ∧ z.magnitude = s / t) :
    (x / y).Denotes (s / t) := by
  obtain ⟨a, rfl, ha, rfl⟩ := hx
  obtain ⟨b, rfl, hb, rfl⟩ := hy
  obtain ⟨c, hc, hvalue⟩ := hquotient
  have hpos : 0 < c.magnitude := hvalue ▸ div_pos hs ht
  exact ⟨c, div_eq_of_magnitude ha hb (Finite.significand_ne_zero ht) hc
    (Finite.significand_ne_zero hpos) hvalue, hc, hvalue⟩

theorem div_two (hx : x.Denotes t) (h : 2 < t) : (x / 2).Denotes (t / 2) := by
  refine hx.div denotes_two (two_pos.trans h) two_pos ?_
  obtain ⟨a, rfl, ha, rfl⟩ := hx
  have hlarge : (2 : ℚ) ^ (-1021 : Int) ≤ a.magnitude := by
    have hone : (2 : ℚ) ^ (-1021 : Int) ≤ 2 ^ (1 : Int) := two_zpow_le_iff.2 (by decide)
    rw [zpow_one] at hone
    exact hone.trans h.le
  obtain ⟨z, hz, hvalue⟩ := Finite.exists_half hlarge
  exact ⟨z, hz.trans ha, hvalue⟩

theorem div_half (hx : x.Denotes t) (hpos : 0 < t) (h : t < 1 / 2) :
    (x / half).Denotes (t / (1 / 2)) := by
  refine hx.div denotes_half hpos (by norm_num) ?_
  obtain ⟨a, rfl, ha, rfl⟩ := hx
  have hsmall : a.magnitude < (2 : ℚ) ^ (1023 : Int) := by
    have hone : (2 : ℚ) ^ (0 : Int) ≤ 2 ^ (1023 : Int) := two_zpow_le_iff.2 (by decide)
    rw [zpow_zero] at hone
    exact (h.trans (by norm_num)).trans_le hone
  obtain ⟨z, hz, hvalue⟩ := Finite.exists_double hsmall
  exact ⟨z, hz.trans ha, by rw [hvalue]; ring⟩

end Denotes

end Binary64

namespace Graph

open Binary64

/-! ### The two loops -/

/-- The stages that double the rest until it is not below one half. -/
inductive Slowed : Binary64 → List Binary64 → Prop
  | again {x stages} (h : x < half) (rest : Slowed (x / half) stages) : Slowed x (half :: stages)
  | last {x} (h : ¬ x < half) : Slowed x (lastTempoStage x)

/-- The stages that halve the rest until it is not above two, and then double it. -/
inductive Hastened : Binary64 → List Binary64 → Prop
  | again {x stages} (h : 2 < x) (rest : Hastened (x / 2) stages) : Hastened x (2 :: stages)
  | slow {x stages} (h : ¬ 2 < x) (rest : Slowed x stages) : Hastened x stages

variable {x : Binary64} {t : ℚ} {stages : List Binary64}

theorem slowed_slowStages {fuel : Nat} (hx : x.Denotes t) (hpos : 0 < t)
    (hfuel : 1 / 2 ≤ t * 2 ^ fuel) : Slowed x (slowStages fuel x) := by
  induction fuel generalizing x t with
  | zero =>
    rw [pow_zero, mul_one] at hfuel
    exact .last fun h => hfuel.not_gt ((hx.lt_iff denotes_half).1 h)
  | succ fuel ih =>
    by_cases h : x < half
    · have hstep : slowStages (fuel + 1) x = half :: slowStages fuel (x / half) := if_pos h
      have hsmall : t < 1 / 2 := (hx.lt_iff denotes_half).1 h
      have hrest : 1 / 2 ≤ t / (1 / 2) * 2 ^ fuel := by
        calc 1 / 2 ≤ t * 2 ^ (fuel + 1) := hfuel
          _ = t / (1 / 2) * 2 ^ fuel := by ring
      rw [hstep]
      exact .again h (ih (hx.div_half hpos hsmall) (by positivity) hrest)
    · have hstep : slowStages (fuel + 1) x = lastTempoStage x := if_neg h
      rw [hstep]
      exact .last h

theorem hastened_fastStages {slowFuel fuel : Nat} (hx : x.Denotes t) (hpos : 0 < t)
    (hslow : 1 / 2 ≤ t * 2 ^ slowFuel) (hfuel : t ≤ 2 * 2 ^ fuel) :
    Hastened x (fastStages slowFuel fuel x) := by
  induction fuel generalizing x t with
  | zero =>
    rw [pow_zero, mul_one] at hfuel
    exact .slow (fun h => hfuel.not_gt ((denotes_two.lt_iff hx).1 h))
      (slowed_slowStages hx hpos hslow)
  | succ fuel ih =>
    by_cases h : 2 < x
    · have hstep : fastStages slowFuel (fuel + 1) x = 2 :: fastStages slowFuel fuel (x / 2) :=
        if_pos h
      have hlarge : 2 < t := (denotes_two.lt_iff hx).1 h
      have hone : (1 : ℚ) ≤ 2 ^ slowFuel := one_le_pow₀ one_le_two
      have hrest : t / 2 ≤ 2 * 2 ^ fuel := by
        rw [pow_succ] at hfuel
        linarith
      rw [hstep]
      exact .again h (ih (hx.div_two hlarge) (by positivity) (by nlinarith) hrest)
    · have hstep : fastStages slowFuel (fuel + 1) x = slowStages slowFuel x := if_neg h
      rw [hstep]
      exact .slow h (slowed_slowStages hx hpos hslow)

/-- A double is not further from one than by as many bits as its significand and its exponent. -/
theorem hastened_tempoStages {y : Finite} (hpos : 0 < Binary64.finite y)
    (h : (Binary64.finite y).differsFromOne) : Hastened (.finite y) (tempoStages (.finite y)) := by
  obtain ⟨hsign, hmagnitude⟩ := zero_lt_finite_iff.1 hpos
  have hstages : tempoStages (.finite y) = fastStages (y.exponent.natAbs + 53)
      (y.exponent.natAbs + 53) (.finite y) := if_pos ⟨hpos, h⟩
  have hone : (1 : ℚ) ≤ y.significand := by
    exact_mod_cast Nat.pos_of_ne_zero (Finite.significand_ne_zero hmagnitude)
  have hbits : (y.significand : ℚ) ≤ 2 ^ (53 : Int) := by exact_mod_cast y.canonical.1.le
  have hfuel : (2 : ℚ) ^ (y.exponent.natAbs + 53) = 2 ^ ((y.exponent.natAbs : Int) + 53) := by
    rw [← zpow_natCast]
    rfl
  rw [hstages]
  refine hastened_fastStages ⟨y, rfl, hsign, rfl⟩ hmagnitude ?_ ?_
  · calc (1 / 2 : ℚ) ≤ 2 ^ (0 : Int) := by norm_num
      _ ≤ 2 ^ (y.exponent + ((y.exponent.natAbs : Int) + 53)) := two_zpow_le_iff.2 (by omega)
      _ = 2 ^ y.exponent * 2 ^ (y.exponent.natAbs + 53) := by rw [two_zpow_add, hfuel]
      _ ≤ y.magnitude * 2 ^ (y.exponent.natAbs + 53) :=
        mul_le_mul_of_nonneg_right (le_mul_of_one_le_left (two_zpow_pos _).le hone)
          (pow_nonneg two_pos.le _)
  · calc y.magnitude ≤ 2 ^ (53 : Int) * 2 ^ y.exponent :=
          mul_le_mul_of_nonneg_right hbits (two_zpow_pos _).le
      _ = 2 ^ (53 + y.exponent) := (two_zpow_add ..).symm
      _ ≤ 2 ^ ((y.exponent.natAbs : Int) + 53) := two_zpow_le_iff.2 (by omega)
      _ = 2 ^ (y.exponent.natAbs + 53) := hfuel.symm
      _ ≤ 2 * 2 ^ (y.exponent.natAbs + 53) := le_mul_of_one_le_left (by positivity) one_le_two

/-! ### What stages play -/

/-- The factor that the text of a stage writes. -/
def printedFactor? (stage : Binary64) : Option ℚ :=
  number? (behindName (Filter.tempo stage).text.toList)

/-- Stages whose factors are from one half to two each and in a row play a tempo, but for a
millionth of it. -/
def Plays (stages : List Binary64) (tempo : ℚ) : Prop :=
  ∃ factors : List ℚ, stages.map printedFactor? = factors.map some ∧
    (∀ f ∈ factors, 1 / 2 ≤ f ∧ f ≤ 2) ∧ |factors.prod - tempo| ≤ tempo / 10 ^ 6

theorem printedFactor?_eq (stage : Binary64) :
    printedFactor? stage = number? (factor stage).toList := by
  have hname : '=' ∉ "atempo".toList := by decide
  change number? (behindName ("atempo=" ++ factor stage).toList) = _
  rw [String.toList_append]
  exact congrArg number? (behindName_append hname _)

theorem printedFactor?_two : printedFactor? 2 = some 2 := by decide +kernel

theorem printedFactor?_half : printedFactor? half = some (1 / 2) := by decide +kernel

/-- An exact stage in front leaves the error of the rest as it is. -/
theorem Plays.cons {stage : Binary64} {f : ℚ} (hprinted : printedFactor? stage = some f)
    (hf : 1 / 2 ≤ f ∧ f ≤ 2) (h : Plays stages (t / f)) : Plays (stage :: stages) t := by
  obtain ⟨factors, hfactors, hrange, hnear⟩ := h
  have hpos : 0 < f := (by norm_num : (0 : ℚ) < 1 / 2).trans_le hf.1
  refine ⟨f :: factors, ?_, ?_, ?_⟩
  · rw [List.map_cons, List.map_cons, hprinted, hfactors]
  · exact List.forall_mem_cons.2 ⟨hf, hrange⟩
  · have hproduct : (f :: factors).prod - t = f * (factors.prod - t / f) := by
      rw [List.prod_cons]
      field_simp
    calc |(f :: factors).prod - t| = f * |factors.prod - t / f| := by
          rw [hproduct, abs_mul, abs_of_pos hpos]
      _ ≤ f * (t / f / 10 ^ 6) := mul_le_mul_of_nonneg_left hnear hpos.le
      _ = t / 10 ^ 6 := by field_simp

/-- A tempo within a small tolerance of one is played by no stages. -/
theorem plays_nil {tolerance : Binary64} (hx : x.Denotes t)
    (htolerance : tolerance < .finite ⟨false, 2 ^ 52, -76, by decide⟩)
    (h : ¬ tolerance < (x - 1).abs) : Plays [] t := by
  obtain ⟨y, rfl, hy, rfl⟩ := hx
  have hbound : Finite.magnitude ⟨false, 2 ^ 52, -76, by decide⟩ = 1 / 2 ^ 24 := by
    rw [Finite.magnitude]
    norm_num
  have hnear := abs_sub_one_lt hy rfl (by decide) htolerance h
  rw [hbound, abs_lt] at hnear
  refine ⟨[], rfl, List.forall_mem_nil _, ?_⟩
  rw [List.prod_nil, abs_le]
  constructor
  · linarith
  · linarith

theorem plays_lastTempoStage (hx : x.Denotes t) (hlow : 1 / 2 ≤ t) (hhigh : t ≤ 2) :
    Plays (lastTempoStage x) t := by
  unfold lastTempoStage
  split
  · obtain ⟨y, rfl, hy, rfl⟩ := hx
    have hprinted : printedFactor? (.finite y) = some ((y.scaled 6 : ℚ) / 10 ^ 6) := by
      rw [printedFactor?_eq, number?_factor, hy, if_neg Bool.false_ne_true, one_mul]
    have hleast : 500000 ≤ y.scaled 6 := Finite.le_scaled (by norm_num; exact hlow)
    have hmost : y.scaled 6 ≤ 2000000 := Finite.scaled_le (by norm_num; exact hhigh)
    have hleast' : (500000 : ℚ) ≤ y.scaled 6 := by exact_mod_cast hleast
    have hmost' : (y.scaled 6 : ℚ) ≤ 2000000 := by exact_mod_cast hmost
    refine ⟨[(y.scaled 6 : ℚ) / 10 ^ 6], by rw [List.map_singleton, hprinted]; rfl, ?_, ?_⟩
    · intro f hf
      rw [List.mem_singleton.1 hf]
      constructor
      · linarith
      · linarith
    · rw [List.prod_singleton]
      calc |(y.scaled 6 : ℚ) / 10 ^ 6 - y.magnitude| ≤ 1 / (2 * 10 ^ 6) := y.scaled_near 6
        _ ≤ y.magnitude / 10 ^ 6 := by linarith
  · next h => exact plays_nil hx (by decide +kernel) h

theorem Slowed.plays (h : Slowed x stages) (hx : x.Denotes t) (hpos : 0 < t) (hhigh : t ≤ 2) :
    Plays stages t := by
  induction h generalizing t with
  | again h _ ih =>
    have hsmall : t < 1 / 2 := (hx.lt_iff denotes_half).1 h
    exact .cons printedFactor?_half (by norm_num)
      (ih (hx.div_half hpos hsmall) (by positivity) (by linarith))
  | last h =>
    exact plays_lastTempoStage hx (not_lt.1 fun hlow => h ((hx.lt_iff denotes_half).2 hlow)) hhigh

theorem Hastened.plays (h : Hastened x stages) (hx : x.Denotes t) (hpos : 0 < t) :
    Plays stages t := by
  induction h generalizing t with
  | again h _ ih =>
    have hlarge : 2 < t := (denotes_two.lt_iff hx).1 h
    exact .cons printedFactor?_two (by norm_num) (ih (hx.div_two hlarge) (by positivity))
  | slow h rest =>
    exact rest.plays hx hpos (not_lt.1 fun hhigh => h ((denotes_two.lt_iff hx).2 hhigh))

/-- Both loops come to an end for every double above zero, from the least to the greatest. Their
stages are in range as they are written and play the speed, but for a millionth of it. No stage
stands for a speed that is not finite or not above zero. -/
theorem plays_tempoStages (speed : Binary64) :
    (∀ y : Finite, speed = .finite y → 0 < speed →
      (speed.differsFromOne → Hastened speed (tempoStages speed)) ∧
        (¬ speed.differsFromOne → tempoStages speed = []) ∧ Plays (tempoStages speed) y.toRat) ∧
    (speed.isFinite = false ∨ ¬ 0 < speed → tempoStages speed = []) := by
  refine ⟨?_, ?_⟩
  · rintro y rfl hpos
    obtain ⟨hsign, hmagnitude⟩ := zero_lt_finite_iff.1 hpos
    have hnone (h : ¬ (Binary64.finite y).differsFromOne) : tempoStages (.finite y) = [] :=
      if_neg fun hboth => h hboth.2
    refine ⟨hastened_tempoStages hpos, hnone, ?_⟩
    rw [Finite.toRat_eq hsign]
    by_cases h : (Binary64.finite y).differsFromOne
    · exact (hastened_tempoStages hpos h).plays ⟨y, rfl, hsign, rfl⟩ hmagnitude
    · rw [hnone h]
      exact plays_nil ⟨y, rfl, hsign, rfl⟩ (by decide +kernel) h
  · intro h
    cases speed with
    | nan => rfl
    | infinite negative => rfl
    | finite y =>
      have hzero : ¬ 0 < Binary64.finite y := h.resolve_left (by simp [isFinite])
      exact if_neg fun hboth => hzero hboth.1

/-- The least double above zero is played, and no number has no stages. -/
theorem plays_least_double :
    Plays (tempoStages (.finite ⟨false, 1, -1074, by decide⟩))
      (Finite.toRat ⟨false, 1, -1074, by decide⟩) ∧ tempoStages .nan = [] :=
  ⟨((plays_tempoStages _).1 ⟨false, 1, -1074, by decide⟩ rfl (by decide +kernel)).2.2,
    (plays_tempoStages .nan).2 (.inl rfl)⟩

end Graph

end RenderGateway
