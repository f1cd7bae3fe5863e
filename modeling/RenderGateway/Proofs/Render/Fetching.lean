import RenderGateway.Proofs.Graph.Wiring
import RenderGateway.Proofs.Plan.Localization
import RenderGateway.Proofs.Render.Attempts

/-!
# Fetching the sources of a plan

The sources are tried in their order, each until it is brought to disk or fails for good, and none
after one that failed. The work ends with the place of every source, or with the fault on record
for the last attempt.
-/

namespace RenderGateway

namespace Work

variable {w : Workshop} {s : WorkState}

/-- Brings one source to disk and says where it is. -/
def fetchOne (w : Workshop) (source : String × Nat) : Work (String × String) := do
  return (source.1, ← fetchFrom w source.2 source.1 w.policy.maxRetries.toNat 1)

/-- How the work on a list of sources ends: with a place for each of them, or with the fault on
record for the last attempt at one that no attempt brought. -/
inductive Ends (sources : List (String × Nat)) (trials : List Trial)
    (records : List FailureRecord) : Except WorkEnd (List (String × String)) → Prop
  | covered {paths : List (String × String)}
      (all : trials.map (fun t => (t.url, t.index)) = sources)
      (found : List.Forall₂ (fun t entry => entry.1 = t.url ∧ t.path? = some entry.2)
        trials paths) (retried : ∀ r ∈ records, r.IsRetried) :
      Ends sources trials records (.ok paths)
  | failed {reached : List Trial} {t : Trial} {earlier : List FailureRecord} {r : FailureRecord}
      (trials_eq : trials = reached ++ [t]) (last : t.path? = none)
      (records_eq : records = earlier ++ [r]) (retried : ∀ r ∈ earlier, r.IsRetried)
      (given_up : r.recovery = .abort) :
      Ends sources trials records (.error (.failed r.fault))

/-- A stretch of the work that tries sources in their order, none after one that failed. -/
structure Fetched (w : Workshop) (s s' : WorkState) (sources : List (String × Nat))
    (trials : List Trial) (records : List FailureRecord)
    (result : Except WorkEnd (List (String × String))) : Prop where
  attempts : ∀ t ∈ trials, Attempts w.policy (answers w s t.index t.url) 1 t.attempts
  grows : s.Grows s' (trials.flatMap Trial.calls) records
  recorded : List.Forall₂ (FailureRecord.OfAttempt w.policy s.job) records
    (trials.flatMap Trial.failures)
  in_order : trials.map (fun t => (t.url, t.index)) <+: sources
  reached : ∀ t ∈ trials.dropLast, t.path?.isSome
  ends : Ends sources trials records result

namespace Fetched

variable {s' t : WorkState} {source : String × Nat} {sources : List (String × Nat)}
  {trials : List Trial} {attempts : List (Nat × Except RenderFailure String)}
  {records others : List FailureRecord}

theorem nothing (w : Workshop) (s : WorkState) : Fetched w s s [] [] [] (.ok []) where
  attempts := by simp
  grows := .refl s
  recorded := .nil
  in_order := List.prefix_refl _
  reached := by simp
  ends := .covered rfl .nil (by simp)

theorem failed {r : FailureRecord} {earlier : List FailureRecord}
    (h : Tried w s s' 1 ⟨source.1, source.2, attempts⟩ records (.error (.failed r.fault)))
    (last : Trial.path? ⟨source.1, source.2, attempts⟩ = none)
    (records_eq : records = earlier ++ [r]) (retried : ∀ r ∈ earlier, r.IsRetried)
    (given_up : r.recovery = .abort) :
    Fetched w s s' (source :: sources) [⟨source.1, source.2, attempts⟩] records
      (.error (.failed r.fault)) where
  attempts := by simpa using h.attempts
  grows := by simpa using h.grows
  recorded := by simpa using h.recorded
  in_order := by simp
  reached := by simp
  ends := .failed (List.nil_append _).symm last records_eq retried given_up

/-- The sources after one that was brought are tried next. -/
theorem cons {path : String} {result : Except WorkEnd (List (String × String))}
    (h : Tried w s s' 1 ⟨source.1, source.2, attempts⟩ records (.ok path))
    (last : Trial.path? ⟨source.1, source.2, attempts⟩ = some path)
    (retried : ∀ r ∈ records, r.IsRetried)
    (rest : Fetched w s' t sources trials others result) :
    Fetched w s t (source :: sources) (⟨source.1, source.2, attempts⟩ :: trials)
      (records ++ others) (result.map fun paths => (source.1, path) :: paths) where
  attempts := by
    rw [List.forall_mem_cons, ← answers_of_grows h.grows]
    exact ⟨answers_of_grows h.grows ▸ h.attempts, rest.attempts⟩
  grows := by
    rw [List.flatMap_cons]
    exact h.grows.trans rest.grows
  recorded := by
    rw [List.flatMap_cons]
    exact List.rel_append h.recorded (rest.recorded.imp fun _ _ => ofAttempt_of_grows h.grows)
  in_order := by
    rw [List.map_cons]
    exact List.cons_prefix_cons.2 ⟨rfl, rest.in_order⟩
  reached := by
    cases trials with
    | nil => simp
    | cons first trials =>
      rw [List.dropLast_cons_cons, List.forall_mem_cons, last]
      exact ⟨rfl, rest.reached⟩
  ends := by
    cases rest.ends with
    | covered all found later =>
      exact .covered (by rw [List.map_cons, all]) (.cons ⟨rfl, last⟩ found)
        (List.forall_mem_append.2 ⟨retried, later⟩)
    | failed trials_eq failing records_eq later given_up =>
      exact .failed (trials_eq ▸ (List.cons_append).symm) failing
        (records_eq ▸ (List.append_assoc _ _ _).symm)
        (List.forall_mem_append.2 ⟨retried, later⟩) given_up

end Fetched

theorem run_fetchOne_ok {source : String × Nat} {s' : WorkState} {path : String}
    (h : (fetchFrom w source.2 source.1 w.policy.maxRetries.toNat 1).run s = (.ok path, s')) :
    (fetchOne w source).run s = (.ok (source.1, path), s') := by
  rw [fetchOne, run_bind_ok h]
  rfl

theorem run_fetchOne_error {source : String × Nat} {s' : WorkState} {e : WorkEnd}
    (h : (fetchFrom w source.2 source.1 w.policy.maxRetries.toNat 1).run s = (.error e, s')) :
    (fetchOne w source).run s = (.error e, s') := by
  rw [fetchOne, run_bind_error h]

/-- The work tries the sources of a list in their order, up to one that fails for good. -/
theorem run_fetches (tireless : w.Tireless) (sources : List (String × Nat)) {s : WorkState}
    (going : s.traces.stopping = false) :
    ∃ s' trials records result, (sources.mapM (fetchOne w)).run s = (result, s') ∧
      Fetched w s s' sources trials records result := by
  induction sources generalizing s with
  | nil => exact ⟨s, _, _, _, rfl, .nothing w s⟩
  | cons source sources ih =>
    obtain ⟨attempts, s₁, records, result, hrun, htried⟩ :=
      run_fetchFrom source.2 source.1 tireless (Nat.le_refl 1) rfl going
    rw [List.mapM_cons]
    cases htried.concludes with
    | @brought path last retried =>
      obtain ⟨s', trials, others, result, hrest, hfetched⟩ :=
        ih (htried.grows.stopping_eq.trans going)
      refine ⟨s', _, _, _, ?_, .cons htried last retried hfetched⟩
      rw [run_bind_ok (run_fetchOne_ok hrun)]
      cases result with
      | ok paths =>
        rw [run_bind_ok hrest]
        rfl
      | error e =>
        rw [run_bind_error hrest]
        rfl
    | failed last records_eq retried given_up =>
      refine ⟨s₁, _, _, _, ?_, .failed htried last records_eq retried given_up⟩
      rw [run_bind_error (run_fetchOne_error hrun)]

theorem run_fetchAll (tireless : w.Tireless) (urls : List String)
    (going : s.traces.stopping = false) :
    ∃ s' trials records result, (fetchAll w urls).run s = (result, s') ∧
      Fetched w s s' urls.zipIdx trials records result :=
  run_fetches tireless urls.zipIdx going

/-- Every source that is found is one of the sources, and none is left out. -/
theorem Ends.map_fst {urls : List String} {trials : List Trial} {records : List FailureRecord}
    {paths : List (String × String)} (h : Ends urls.zipIdx trials records (.ok paths)) :
    paths.map Prod.fst = urls := by
  cases h with
  | covered all found =>
    have hpaths : trials.map Trial.url = paths.map Prod.fst := by
      rw [← List.forall₂_eq_eq_eq, List.forall₂_map_left_iff, List.forall₂_map_right_iff]
      exact found.imp fun _ _ h => h.1.symm
    have hurls := congrArg (List.map Prod.fst) all
    rw [List.map_map, List.zipIdx_map_fst] at hurls
    exact hpaths.symm.trans hurls

/-- The sources of a plan are tried in their order, none after one that failed for good. An
attempt is followed by another exactly if it failed in transit and retries are left; every failure
leaves one record, with the growing but limited delay before the attempt that follows it, or with
the end of the work. The work ends with a place for every source or with the fault of the last
record. A record holds the number of its attempt if a word of 32 bits can. -/
theorem fetched_of_plan (p : Plan) (tireless : w.Tireless) (going : s.traces.stopping = false) :
    ∃ s' trials records result, (fetchAll w p.assetUrls).run s = (result, s') ∧
      Fetched w s s' p.assetUrls.zipIdx trials records result ∧
      p.assetUrls.Nodup ∧
      (∀ t ∈ trials, t.attempts.length ≤ w.policy.maxRetries.toNat + 1 ∧
        ∀ i k answer, t.attempts[i]? = some (k, answer) → k = i + 1 ∧
          (i + 1 < t.attempts.length ↔ ∃ e, answer = .error e ∧ w.policy.Retries k e)) ∧
      (∀ paths, result = .ok paths → paths.map Prod.fst = p.assetUrls) ∧
      (∀ j k, j ≤ k → w.policy.delayAfter j ≤ w.policy.delayAfter k) ∧
      ∀ k, w.policy.delayAfter k ≤ w.policy.maxDelay.toNat := by
  obtain ⟨s', trials, records, result, hrun, hfetched⟩ :=
    run_fetchAll tireless p.assetUrls going
  refine ⟨s', trials, records, result, hrun, hfetched, p.nodup_assetUrls, fun t ht => ?_,
    fun paths hpaths => (hpaths ▸ hfetched.ends).map_fst,
    fun j k => RetryPolicy.delayAfter_mono, RetryPolicy.delayAfter_le⟩
  have hattempts := hfetched.attempts t ht
  have hlength := hattempts.length_le (by omega)
  refine ⟨by omega, fun i k answer hi => ⟨?_, hattempts.followed_iff hi⟩⟩
  have hnumber := hattempts.number_eq hi
  omega

/-- A worker whose first source takes two attempts and whose second one is refused. -/
def flaky : Workshop where
  settings := .default
  policy := RenderSettings.default.retryPolicy
  engines := [.serverFfmpeg]
  outputs := ⟨"/out", "outputs", ""⟩
  fetch := fun _ _ index url attempt =>
    if index = 0 then
      if attempt = 1 then .error (.download url "connection reset" none true)
      else .ok "/work/source-0.mp4"
    else .error (.unauthorized url 403)
  encode := fun _ => ⟨[], none, .ok ()⟩
  stopsAt := fun _ => false
  recordId := fun n => toString n
  now := default
  elapsed := 0

/-- The work on a clip at its start. -/
def begun : WorkState := ⟨Job.queued "j" Plan.clip 0 default, [], [], ⟨[], [], .empty, false⟩⟩

theorem fetched_of_flaky : ∃ s' trials records result,
    (fetchAll flaky Plan.clip.assetUrls).run begun = (result, s') ∧
      Fetched flaky begun s' Plan.clip.assetUrls.zipIdx trials records result ∧
      records.map (fun r => (r.attempt, r.recovery)) = [(1, .retry 500), (1, .abort)] := by
  obtain ⟨s', trials, records, result, hrun, hfetched, _⟩ :=
    fetched_of_plan (w := flaky) (s := begun) Plan.clip (fun _ => rfl) rfl
  have hdecisions : ((fetchAll flaky Plan.clip.assetUrls).run begun).2.traces.records.map
      (fun r => (r.attempt, r.recovery)) = [(1, .retry 500), (1, .abort)] := by decide +kernel
  rw [hrun, hfetched.grows.records_eq] at hdecisions
  exact ⟨s', trials, records, result, hrun, hfetched, hdecisions⟩

/-- A worker that no source can be brought to, and that retries as often as a word can count. -/
def stubborn : Workshop where
  __ := flaky
  policy := ⟨.ofNat (2 ^ 32 - 1), 0, 0⟩
  fetch := fun _ _ _ _ _ => .error (.download "a.mp4" "connection reset" none true)

/-- The last attempt of the stubborn worker at a source is recorded under no number that counts
attempts from 1. -/
theorem stubborn_records_zero :
    ∃ r ∈ ((fetchAll stubborn Plan.clip.assetUrls).run begun).2.traces.records,
      r.attempt = 0 := by
  obtain ⟨s', trials, records, result, hrun, hfetched⟩ :=
    run_fetchAll (w := stubborn) (s := begun) (fun _ => rfl) Plan.clip.assetUrls rfl
  have htrials : trials ≠ [] := by
    intro hnone
    cases hfetched.ends with
    | covered all =>
      rw [hnone] at all
      exact absurd all (by decide)
    | failed trials_eq => simp [hnone] at trials_eq
  obtain ⟨t, ht⟩ := List.exists_mem_of_ne_nil _ htrials
  have hattempts := (hfetched.attempts t ht).eq_of_refused (Nat.le_add_left 1 _)
    ⟨_, _, _, rfl⟩ fun _ => rfl
  have hlast : (2 ^ 32, .download "a.mp4" "connection reset" none true) ∈ t.failures := by
    refine List.mem_filterMap.2 ⟨(2 ^ 32, .error _), ?_, rfl⟩
    rw [hattempts]
    exact List.mem_map.2 ⟨2 ^ 32, List.mem_range'_1.2 (by decide), rfl⟩
  obtain ⟨i, hi, hget⟩ := List.mem_iff_getElem.1 (List.mem_flatMap.2 ⟨t, ht, hlast⟩)
  have hrecord := hfetched.recorded.get (hfetched.recorded.length_eq ▸ hi) hi
  refine ⟨_, ?_, hrecord.attempt_wraps (congrArg Prod.fst hget)⟩
  rw [hrun, hfetched.grows.records_eq]
  exact List.mem_append_right _ (List.get_mem _ _)

end Work

end RenderGateway
