import Mathlib.Data.List.Forall2
import RenderGateway.Proofs.Render.Steps

/-!
# Attempts at a source

A source is tried until an attempt brings it to disk or fails for good. `Attempts` says which
attempts there are; the work makes exactly these and leaves one record of each that failed.
-/

namespace RenderGateway

/-- The attempts at one source from a number on, with their answers. Another attempt follows a
failure that is retried, and nothing else. -/
inductive Attempts (policy : RetryPolicy) (fetch : UInt32 → Except RenderFailure String) :
    Nat → List (Nat × Except RenderFailure String) → Prop
  | brought {k : Nat} {path : String} (answer : fetch (.ofNat k) = .ok path) :
      Attempts policy fetch k [(k, .ok path)]
  | failed {k : Nat} {e : RenderFailure} (answer : fetch (.ofNat k) = .error e)
      (final : ¬ policy.Retries k e) : Attempts policy fetch k [(k, .error e)]
  | again {k : Nat} {e : RenderFailure} {rest : List (Nat × Except RenderFailure String)}
      (answer : fetch (.ofNat k) = .error e) (retried : policy.Retries k e)
      (later : Attempts policy fetch (k + 1) rest) :
      Attempts policy fetch k ((k, .error e) :: rest)

namespace Attempts

variable {policy : RetryPolicy} {fetch : UInt32 → Except RenderFailure String} {k : Nat}
  {attempts : List (Nat × Except RenderFailure String)}

theorem ne_nil (h : Attempts policy fetch k attempts) : attempts ≠ [] := by
  cases h <;> exact List.cons_ne_nil _ _

/-- Each retry follows a failure, so that the attempts are one more than the retries at most. -/
theorem length_le (h : Attempts policy fetch k attempts) (hk : k ≤ policy.maxRetries.toNat + 1) :
    attempts.length + k ≤ policy.maxRetries.toNat + 2 := by
  induction h with
  | brought | failed =>
    rw [List.length_singleton]
    omega
  | again answer retried later ih =>
    have hrest := ih (by have := retried.2; omega)
    rw [List.length_cons]
    omega

theorem number_eq (h : Attempts policy fetch k attempts) {i j : Nat}
    {answer : Except RenderFailure String} (hi : attempts[i]? = some (j, answer)) : j = k + i := by
  induction h generalizing i with
  | brought | failed =>
    cases i with
    | zero =>
      cases hi
      rfl
    | succ i => simp at hi
  | again _ _ _ ih =>
    cases i with
    | zero =>
      cases hi
      rfl
    | succ i =>
      have := ih hi
      omega

/-- An attempt is followed by another exactly if it failed and the failure is retried. -/
theorem followed_iff (h : Attempts policy fetch k attempts) {i j : Nat}
    {answer : Except RenderFailure String} (hi : attempts[i]? = some (j, answer)) :
    i + 1 < attempts.length ↔ ∃ e, answer = .error e ∧ policy.Retries j e := by
  induction h generalizing i with
  | brought =>
    cases i with
    | zero =>
      cases hi
      simp
    | succ i => simp at hi
  | failed _ final =>
    cases i with
    | zero =>
      cases hi
      simp [final]
    | succ i => simp at hi
  | again _ retried later ih =>
    cases i with
    | zero =>
      cases hi
      have hpos := List.length_pos_of_ne_nil later.ne_nil
      simp [retried, hpos]
    | succ i =>
      rw [List.length_cons, Nat.add_lt_add_iff_right]
      exact ih hi

/-- The answers alone decide how often a source is tried. -/
theorem unique {others : List (Nat × Except RenderFailure String)}
    (h : Attempts policy fetch k attempts) (h' : Attempts policy fetch k others) :
    attempts = others := by
  induction h generalizing others with
  | brought answer =>
    cases h' with
    | brought answer' => rw [Except.ok.inj (answer.symm.trans answer')]
    | failed answer' => cases answer.symm.trans answer'
    | again answer' => cases answer.symm.trans answer'
  | failed answer final =>
    cases h' with
    | brought answer' => cases answer.symm.trans answer'
    | failed answer' => rw [Except.error.inj (answer.symm.trans answer')]
    | again answer' retried =>
      cases answer.symm.trans answer'
      exact absurd retried final
  | again answer retried later ih =>
    cases h' with
    | brought answer' => cases answer.symm.trans answer'
    | failed answer' final =>
      cases answer.symm.trans answer'
      exact absurd retried final
    | again answer' _ later' =>
      cases answer.symm.trans answer'
      rw [ih later']

/-- A source that no attempt can bring is tried as often as there are retries. -/
theorem eq_of_refused {e : RenderFailure} (h : Attempts policy fetch k attempts)
    (hk : k ≤ policy.maxRetries.toNat + 1) (he : e.IsTransient)
    (refused : ∀ n, fetch n = .error e) : attempts =
      (List.range' k (policy.maxRetries.toNat + 2 - k)).map fun n => (n, .error e) := by
  induction h with
  | brought answer => cases answer.symm.trans (refused _)
  | @failed k _ answer final =>
    cases answer.symm.trans (refused _)
    have hlast : policy.maxRetries.toNat + 2 - k = 1 := by
      have : ¬ k ≤ policy.maxRetries.toNat := fun hk => final ⟨he, hk⟩
      omega
    rw [hlast]
    rfl
  | @again k _ _ answer retried later ih =>
    cases answer.symm.trans (refused _)
    have hmore : policy.maxRetries.toNat + 2 - k = policy.maxRetries.toNat + 2 - (k + 1) + 1 := by
      have := retried.2
      omega
    rw [hmore, List.range'_succ, List.map_cons, ← ih (by have := retried.2; omega)]

end Attempts

/-- The attempts at one source, in their order. -/
structure Trial where
  url : String
  index : Nat
  attempts : List (Nat × Except RenderFailure String)

namespace Trial

def calls (t : Trial) : List Call :=
  t.attempts.map fun (k, answer) => .fetch t.index t.url (.ofNat k) answer

/-- The attempts that failed. -/
def failures (t : Trial) : List (Nat × RenderFailure) :=
  t.attempts.filterMap fun (k, answer) =>
    match answer with
    | .ok _ => none
    | .error e => some (k, e)

/-- Where the last attempt brought the source to. -/
def path? (t : Trial) : Option String := t.attempts.getLast?.bind fun (_, answer) => answer.toOption

end Trial

/-- The record of a failure that another attempt follows. -/
def FailureRecord.IsRetried (r : FailureRecord) : Prop := ∃ delay, r.recovery = .retry delay

/-- What the record of a failed attempt says: the job, the number of the attempt, the fault of the
failure, and a retry after the delay due where another attempt follows. The number is a word of 32
bits. The one attempt that it has no place for follows as many retries as a word can count, and is
recorded as number zero. -/
structure FailureRecord.OfAttempt (policy : RetryPolicy) (job : Job) (r : FailureRecord)
    (failure : Nat × RenderFailure) : Prop where
  jobId_eq : r.jobId = job.id
  projectId_eq : r.projectId = job.projectId
  attempt_eq : failure.1 < 2 ^ 32 → r.attempt.toNat = failure.1
  attempt_le : failure.1 ≤ policy.maxRetries.toNat + 1
  attempt_wraps : failure.1 = 2 ^ 32 → r.attempt = 0
  classified : (r.fault, r.stage) = failure.2.classify .fetch
  retried : policy.Retries failure.1 failure.2 →
    ∃ delay, r.recovery = .retry delay ∧ delay.toNat = policy.delayAfter failure.1
  given_up : ¬ policy.Retries failure.1 failure.2 → r.recovery = .abort

namespace Work

variable {w : Workshop} {s : WorkState}

theorem ofAttempt_recordOf {e : RenderFailure} {k : Nat} (hpos : 1 ≤ k)
    (hle : k ≤ w.policy.maxRetries.toNat + 1) :
    (recordOf w s e .fetch (.ofNat k)).OfAttempt w.policy s.job (k, e) where
  jobId_eq := rfl
  projectId_eq := rfl
  attempt_eq hlt := UInt32.toNat_ofNat_of_lt' hlt
  attempt_le := hle
  attempt_wraps heq := by
    change UInt32.ofNat k = 0
    rw [show k = 2 ^ 32 from heq]
    rfl
  classified := rfl
  retried := RenderFailure.recovery_of_retries hpos
  given_up := RenderFailure.recovery_of_not_retries hle

/-- The records of a later stretch are those of the same job. -/
theorem ofAttempt_of_grows {s' : WorkState} {calls : List Call} {records : List FailureRecord}
    (h : s.Grows s' calls records) {r : FailureRecord} {failure : Nat × RenderFailure}
    (hr : r.OfAttempt w.policy s'.job failure) : r.OfAttempt w.policy s.job failure :=
  { hr with
    jobId_eq := hr.jobId_eq.trans h.id_eq
    projectId_eq := hr.projectId_eq.trans h.projectId_eq }

/-- The answers to attempts that are made in this state. -/
def answers (w : Workshop) (s : WorkState) (index : Nat) (url : String) :
    UInt32 → Except RenderFailure String :=
  w.fetch s.traces.shelf (w.inputs s.job.id) index url

theorem answers_of_grows {s' : WorkState} {calls : List Call} {records : List FailureRecord}
    (h : s.Grows s' calls records) : answers w s' = answers w s := by
  funext index url
  rw [answers, answers, h.shelf_eq, h.id_eq]

variable {index : Nat} {url : String}

theorem run_attemptFetch (k : UInt32) : (attemptFetch w index url k).run s =
    (do
      call (.fetch index url k (answers w s index url k))
      match answers w s index url k with
      | .ok path => return .ok path
      | .error e => return .error (← handle w e .fetch k) :
      Work (Except FailureRecord String)).run s := rfl

theorem run_attemptFetch_ok {k : UInt32} {path : String}
    (h : answers w s index url k = .ok path) :
    ∃ s', (attemptFetch w index url k).run s = (.ok (.ok path), s') ∧
      s.Grows s' [.fetch index url k (.ok path)] [] := by
  obtain ⟨s', hcall, hgrows⟩ := run_call s (.fetch index url k (.ok path))
  refine ⟨s', ?_, hgrows⟩
  rw [run_attemptFetch, h, run_bind_ok hcall]
  rfl

theorem run_attemptFetch_error {k : Nat} (hpos : 1 ≤ k)
    (hle : k ≤ w.policy.maxRetries.toNat + 1) {e : RenderFailure}
    (h : answers w s index url (.ofNat k) = .error e) :
    ∃ s' r, (attemptFetch w index url (.ofNat k)).run s = (.ok (.error r), s') ∧
      s.Grows s' [.fetch index url (.ofNat k) (.error e)] [r] ∧
      r.OfAttempt w.policy s.job (k, e) := by
  obtain ⟨s₁, hcall, hgrows⟩ := run_call s (.fetch index url (.ofNat k) (.error e))
  obtain ⟨s₂, hhandle, hgrows'⟩ := run_handle (w := w) s₁ e .fetch (.ofNat k)
  refine ⟨s₂, _, ?_, hgrows.trans hgrows', ofAttempt_of_grows hgrows (ofAttempt_recordOf hpos hle)⟩
  rw [run_attemptFetch, h, run_bind_ok hcall, run_bind_ok hhandle]
  rfl

/-- A worker that goes on sleeps through the delay. -/
theorem run_awaitRetry (url : String) (tireless : w.Tireless) (going : s.traces.stopping = false)
    (k : UInt32) (r : FailureRecord) (delay : UInt64) :
    ∃ s', (awaitRetry w url k r delay).run s = (.ok (), s') ∧ s.Grows s' [] [] := by
  obtain ⟨s', hnote, hgrows⟩ := run_note s tireless
    s!"Fetch attempt {k} for {url} failed ({r.fault.message}), retrying in {delay}ms"
  refine ⟨s', ?_, hgrows⟩
  rw [awaitRetry, run_bind_ok hnote]
  change (if s'.traces.stopping = true then abort w .fetch (.media .cancelled)
    else pure () : Work Unit).run s' = _
  rw [if_neg (by rw [hgrows.stopping_eq, going]; decide)]
  rfl

/-- How the attempts at a source end: with the place that the last one brought it to, or with
the fault on record for it. -/
inductive Concludes (t : Trial) (records : List FailureRecord) : Except WorkEnd String → Prop
  | brought {path : String} (last : t.path? = some path) (retried : ∀ r ∈ records, r.IsRetried) :
      Concludes t records (.ok path)
  | failed {earlier : List FailureRecord} {r : FailureRecord} (last : t.path? = none)
      (records_eq : records = earlier ++ [r]) (retried : ∀ r ∈ earlier, r.IsRetried)
      (given_up : r.recovery = .abort) :
      Concludes t records (.error (.failed r.fault))

/-- A stretch of the work that consists of the attempts at one source. -/
structure Tried (w : Workshop) (s s' : WorkState) (k : Nat) (t : Trial)
    (records : List FailureRecord) (result : Except WorkEnd String) : Prop where
  attempts : Attempts w.policy (answers w s t.index t.url) k t.attempts
  grows : s.Grows s' t.calls records
  recorded : List.Forall₂ (FailureRecord.OfAttempt w.policy s.job) records t.failures
  concludes : Concludes t records result

namespace Tried

variable {s' t : WorkState} {k : Nat} {records : List FailureRecord}

theorem brought {path : String} (answer : answers w s index url (.ofNat k) = .ok path)
    (grows : s.Grows s' [.fetch index url (.ofNat k) (.ok path)] []) :
    Tried w s s' k ⟨url, index, [(k, .ok path)]⟩ [] (.ok path) where
  attempts := .brought answer
  grows := grows
  recorded := .nil
  concludes := .brought rfl (by simp)

theorem failed {e : RenderFailure} {r : FailureRecord}
    (answer : answers w s index url (.ofNat k) = .error e) (final : ¬ w.policy.Retries k e)
    (grows : s.Grows s' [.fetch index url (.ofNat k) (.error e)] [r])
    (recorded : r.OfAttempt w.policy s.job (k, e)) :
    Tried w s s' k ⟨url, index, [(k, .error e)]⟩ [r] (.error (.failed r.fault)) where
  attempts := .failed answer final
  grows := grows
  recorded := .cons recorded .nil
  concludes := .failed rfl (List.nil_append [r]).symm (by simp) (recorded.given_up final)

/-- A retried failure comes before the other attempts. -/
theorem again {e : RenderFailure} {r : FailureRecord} {result : Except WorkEnd String}
    {rest : List (Nat × Except RenderFailure String)}
    (answer : answers w s index url (.ofNat k) = .error e) (retried : w.policy.Retries k e)
    (grows : s.Grows s' [.fetch index url (.ofNat k) (.error e)] [r])
    (recorded : r.OfAttempt w.policy s.job (k, e))
    (later : Tried w s' t (k + 1) ⟨url, index, rest⟩ records result) :
    Tried w s t k ⟨url, index, (k, .error e) :: rest⟩ (r :: records) result where
  attempts := .again answer retried (answers_of_grows grows ▸ later.attempts)
  grows := grows.trans later.grows
  recorded := .cons recorded (later.recorded.imp fun _ _ => ofAttempt_of_grows grows)
  concludes := by
    have hpath : Trial.path? ⟨url, index, (k, .error e) :: rest⟩ =
        Trial.path? ⟨url, index, rest⟩ := by
      rw [Trial.path?, Trial.path?, List.getLast?_cons_of_ne_nil later.attempts.ne_nil]
    have hretried : r.IsRetried := (recorded.retried retried).imp fun _ h => h.1
    cases later.concludes with
    | brought last others =>
      exact .brought (hpath.trans last) (List.forall_mem_cons.2 ⟨hretried, others⟩)
    | failed last records_eq others given_up =>
      exact .failed (hpath.trans last) (records_eq ▸ (List.cons_append).symm)
        (List.forall_mem_cons.2 ⟨hretried, others⟩) given_up

end Tried

/-- The work makes the attempts at a source, from the one on that leaves the given retries. -/
theorem run_fetchFrom (index : Nat) (url : String) (tireless : w.Tireless) {retries k : Nat}
    (hpos : 1 ≤ k) (hbudget : retries + k = w.policy.maxRetries.toNat + 1) {s : WorkState}
    (going : s.traces.stopping = false) :
    ∃ attempts s' records result,
      (fetchFrom w index url retries (.ofNat k)).run s = (result, s') ∧
      Tried w s s' k ⟨url, index, attempts⟩ records result := by
  induction retries generalizing k s with
  | zero =>
    cases answer : answers w s index url (.ofNat k) with
    | ok path =>
      obtain ⟨s', hrun, hgrows⟩ := run_attemptFetch_ok answer
      exact ⟨_, s', _, _, by rw [fetchFrom, run_bind_ok hrun]; rfl, .brought answer hgrows⟩
    | error e =>
      obtain ⟨s', r, hrun, hgrows, hrecord⟩ := run_attemptFetch_error hpos (by omega) answer
      have final : ¬ w.policy.Retries k e := fun h => by
        have := h.2
        omega
      exact ⟨_, s', _, _, by rw [fetchFrom, run_bind_ok hrun]; rfl,
        .failed answer final hgrows hrecord⟩
  | succ retries ih =>
    cases answer : answers w s index url (.ofNat k) with
    | ok path =>
      obtain ⟨s', hrun, hgrows⟩ := run_attemptFetch_ok answer
      exact ⟨_, s', _, _, by rw [fetchFrom, run_bind_ok hrun]; rfl, .brought answer hgrows⟩
    | error e =>
      obtain ⟨s₁, r, hrun, hgrows, hrecord⟩ := run_attemptFetch_error hpos (by omega) answer
      by_cases hr : w.policy.Retries k e
      · obtain ⟨delay, hretry, _⟩ := hrecord.retried hr
        have hgoing : s₁.traces.stopping = false := hgrows.stopping_eq.trans going
        obtain ⟨s₂, hawait, hgrows'⟩ :=
          run_awaitRetry url tireless hgoing (.ofNat k) r delay
        have hgrows₂ : s.Grows s₂ [.fetch index url (.ofNat k) (.error e)] [r] :=
          hgrows.trans hgrows'
        obtain ⟨rest, s', records, result, hlater, htried⟩ :=
          ih (k := k + 1) (by omega) (by omega) (hgrows'.stopping_eq.trans hgoing)
        refine ⟨_, s', _, result, ?_, .again answer hr hgrows₂ hrecord htried⟩
        rw [fetchFrom, run_bind_ok hrun]
        simp only [hretry]
        rw [run_bind_ok hawait, ← hlater, UInt32.ofNat_add]
        rfl
      · refine ⟨_, s₁, _, _, ?_, .failed answer hr hgrows hrecord⟩
        rw [fetchFrom, run_bind_ok hrun]
        simp only [hrecord.given_up hr]
        rfl

end Work

end RenderGateway
