import RenderGateway.Render.Handling

/-!
# What is retried

Only a download that failed in transit is tried again, and only while retries are left. The waits
between the attempts never get shorter and never exceed their limit.
-/

namespace RenderGateway

namespace RetryPolicy

variable {policy : RetryPolicy}

theorem delayAfter_le (k : Nat) : policy.delayAfter k ≤ policy.maxDelay.toNat :=
  Nat.min_le_right _ _

theorem delayAfter_mono {j k : Nat} (h : j ≤ k) : policy.delayAfter j ≤ policy.delayAfter k := by
  have hdoublings : min (j - 1) maxDoublings ≤ min (k - 1) maxDoublings := by omega
  have hfactor : 2 ^ min (j - 1) maxDoublings ≤ 2 ^ min (k - 1) maxDoublings :=
    Nat.pow_le_pow_right (by decide) hdoublings
  have hdelay := Nat.mul_le_mul_left policy.baseDelay.toNat hfactor
  unfold delayAfter
  omega

theorem backoff_of_le {k : Nat} (hpos : 1 ≤ k) (h : k ≤ policy.maxRetries.toNat) :
    ∃ delay, policy.backoff (.ofNat k) = some delay ∧ delay.toNat = policy.delayAfter k := by
  have hword : (UInt32.ofNat k).toNat = k :=
    UInt32.toNat_ofNat_of_lt' (Nat.lt_of_le_of_lt h policy.maxRetries.toNat_lt)
  have hgo : ¬ (UInt32.ofNat k = 0 ∨ policy.maxRetries < UInt32.ofNat k) := by
    rw [← UInt32.toNat_inj, UInt32.lt_iff_toNat_lt, hword, UInt32.toNat_zero]
    omega
  refine ⟨_, by rw [backoff, if_neg hgo], ?_⟩
  have hlt : policy.delayAfter k < 2 ^ 64 :=
    Nat.lt_of_le_of_lt (delayAfter_le k) policy.maxDelay.toNat_lt
  rw [hword, Word.toNat_ofNat]
  omega

/-- No attempt follows the one after the last retry. -/
theorem backoff_exhausted : policy.backoff (.ofNat (policy.maxRetries.toNat + 1)) = none := by
  have hlt := policy.maxRetries.toNat_lt
  have hstop : UInt32.ofNat (policy.maxRetries.toNat + 1) = 0 ∨
      policy.maxRetries < UInt32.ofNat (policy.maxRetries.toNat + 1) := by
    rw [← UInt32.toNat_inj, UInt32.lt_iff_toNat_lt, UInt32.toNat_ofNat', UInt32.toNat_zero]
    omega
  rw [backoff, if_pos hstop]

end RetryPolicy

namespace RenderFailure

/-- A download that failed in transit. -/
def IsTransient (e : RenderFailure) : Prop :=
  ∃ url reason status, e = .download url reason status true

theorem isRetryable_iff {e : RenderFailure} : e.isRetryable = true ↔ e.IsTransient := by
  constructor
  · intro h
    cases e with
    | download url reason status transient =>
      obtain rfl : transient = true := h
      exact ⟨url, reason, status, rfl⟩
    | _ => cases h
  · rintro ⟨url, reason, status, rfl⟩
    rfl

end RenderFailure

/-- Whether another attempt follows a failure of the given attempt, counted from 1. -/
def RetryPolicy.Retries (policy : RetryPolicy) (attempt : Nat) (e : RenderFailure) : Prop :=
  e.IsTransient ∧ attempt ≤ policy.maxRetries.toNat

namespace RenderFailure

variable {policy : RetryPolicy} {e : RenderFailure}

theorem recovery_of_not_transient (h : ¬ e.IsTransient) (code : FaultCode) (attempt : UInt32) :
    e.recovery policy code attempt = .abort := by
  have hr : e.isRetryable = false := by rwa [← isRetryable_iff, Bool.not_eq_true] at h
  simp [recovery, hr]

theorem recovery_of_transient (h : e.IsTransient) (attempt : UInt32) :
    e.recovery policy (e.classify .fetch).1.code attempt =
      (policy.backoff attempt).elim .abort .retry := by
  obtain ⟨url, reason, status, rfl⟩ := h
  rfl

/-- The decision on the attempts in reach of the retries. -/
theorem recovery_of_retries {k : Nat} (hpos : 1 ≤ k) (h : policy.Retries k e) :
    ∃ delay, e.recovery policy (e.classify .fetch).1.code (.ofNat k) = .retry delay ∧
      delay.toNat = policy.delayAfter k := by
  obtain ⟨delay, hbackoff, hdelay⟩ := RetryPolicy.backoff_of_le hpos h.2
  exact ⟨delay, by rw [recovery_of_transient h.1, hbackoff]; rfl, hdelay⟩

theorem recovery_of_not_retries {k : Nat} (hle : k ≤ policy.maxRetries.toNat + 1)
    (h : ¬ policy.Retries k e) :
    e.recovery policy (e.classify .fetch).1.code (.ofNat k) = .abort := by
  by_cases ht : e.IsTransient
  · have hk : k = policy.maxRetries.toNat + 1 := by
      have : ¬ k ≤ policy.maxRetries.toNat := fun hk => h ⟨ht, hk⟩
      omega
    rw [recovery_of_transient ht, hk, RetryPolicy.backoff_exhausted]
    rfl
  · exact recovery_of_not_transient ht _ _

end RenderFailure

end RenderGateway
