import RenderGateway.Proofs.Queue.History

/-!
# First in, first out

Jobs leave the line through a claim, through a dispatch to a worker that
waited, or because they end in the line; a job whose answer was lost returns to
the front. `fifo_of_history` accounts for all of them: the delivered jobs and
then the line are the submissions in order, without those that ended in the
line.
-/

namespace RenderGateway.Queue

/-- The ids of jobs that reached a worker. -/
def deliveredIds (claimed : List ClaimedJob) : List String := claimed.map fun c => c.job.id

/-- A job that reached a worker is running and carries what was submitted. -/
def Carries (submitted : List Submission) (c : ClaimedJob) : Prop :=
  c.job.status = .running ∧
    ∃ s ∈ submitted, s.id = c.job.id ∧ s.plan = c.plan ∧ s.outputName = c.outputName

/-- The plans of the line are those that were submitted. -/
def PlansFrom (submitted : List Submission) (q : Queue) : Prop :=
  ∀ id plan outputName, q.plans.find? id = some (plan, outputName) →
    ⟨id, plan, outputName⟩ ∈ submitted

theorem Carries.mono {xs ys : List Submission} (h : xs ⊆ ys) {c : ClaimedJob}
    (hc : Carries xs c) : Carries ys c := by
  obtain ⟨hs, s, hmem, hid, hplan, hname⟩ := hc
  exact ⟨hs, s, h hmem, hid, hplan, hname⟩

section

variable {q r m : Queue} {now : Instant} {notices : List Notice} {submitted : List Submission}

/-- The dispatcher moves the head of the line to the delivered jobs, or nothing. -/
theorem Dispatched.order (hq : q.Consistent) (h : Dispatched q now r notices) :
    deliveredIds (deliveries notices) ++ r.pending = q.pending := by
  cases h with
  | idle _ => rfl
  | left => rfl
  | @delivered s rest job worker current pending found queued planned =>
    have hid : job.id = s.id := (hq.recorded found).id_eq
    rw [pending, ← hid]
    rfl
  | @returned s rest job current pending found queued planned =>
    rw [pending]
    rfl

theorem Dispatched.plansFrom (h : Dispatched q now r notices) (hp : q.PlansFrom submitted) :
    r.PlansFrom submitted := by
  intro id plan outputName hf
  cases h with
  | idle _ => exact hp id plan outputName hf
  | left => exact hp id plan outputName hf
  | @delivered s rest job worker current pending found queued planned =>
    change (q.plans.erase s.id).find? id = _ at hf
    rw [Table.find?_erase] at hf
    split at hf
    · cases hf
    · exact hp id plan outputName hf
  | @returned s rest job current pending found queued planned =>
    change (Table.insert s.id (s.plan, s.outputName) (q.plans.erase s.id)).find? id = _ at hf
    rw [Table.find?_insert] at hf
    split at hf
    · next he =>
      cases hf
      exact hp id _ _ (he ▸ planned)
    · next he =>
      rw [Table.find?_erase, if_neg he] at hf
      exact hp id plan outputName hf

theorem Dispatched.carries (hq : q.Consistent) (h : Dispatched q now r notices)
    (hp : q.PlansFrom submitted) : ∀ c ∈ deliveries notices, Carries submitted c := by
  cases h with
  | idle _ => exact fun c hc => absurd hc List.not_mem_nil
  | left => exact fun c hc => absurd hc List.not_mem_nil
  | @delivered s rest job worker current pending found queued planned =>
    intro c hc
    rw [deliveries_answered, List.mem_singleton] at hc
    subst hc
    exact ⟨rfl, s, hp s.id s.plan s.outputName planned, (hq.recorded found).id_eq.symm, rfl, rfl⟩
  | returned current pending found queued planned => exact fun c hc => absurd hc List.not_mem_nil

theorem cancels_finish {id : String} {outcome : JobOutcome} {job ended : Job}
    (found : q.jobs.find? id = some job) (ok : job.finish outcome now = .ok ended) :
    q.cancels (.finish id outcome) now = if job.status = .queued then [id] else [] := by
  simp [cancels, found, ok, Except.isOk, Except.toBool]

theorem cancels_of_not_handed {command : Command} (h : q.handed command now = none) :
    q.cancels command now = [] := by
  cases command with
  | enqueue _ | claim _ | leave _ | update _ _ => rfl
  | finish id outcome =>
    cases hj : q.jobs.find? id with
    | none => simp [cancels, hj]
    | some job =>
      cases hf : job.finish outcome now with
      | ok k => simp [handed, hj, hf, Except.toOption] at h
      | error r => simp [cancels, hj, hf, Except.isOk, Except.toBool]

/-- Only a job of the line is cancelled. -/
theorem Consistent.cancels_subset (hq : q.Consistent) (command : Command) (now : Instant) :
    q.cancels command now ⊆ q.pending := by
  intro id hid
  cases command with
  | enqueue _ | claim _ | leave _ | update _ _ => cases hid
  | finish other outcome =>
    cases hj : q.jobs.find? other with
    | none => simp [cancels, hj] at hid
    | some job =>
      simp only [cancels, hj] at hid
      split at hid
      · next hs =>
        rw [List.mem_singleton.1 hid]
        exact (hq.recorded hj).queued_iff.1 hs.1
      · cases hid

/-- What reaches the dispatcher: the line with the new submission, or without the
job that ended in it. -/
theorem Handed.order {command : Command} (h : Handed q now command m) :
    m.pending = (q.pending ++ command.submission?.toList.map Submission.id).filter
      fun id => id ∉ q.cancels command now := by
  cases h with
  | admitted s => simp [Queue.admitted, Command.submission?, cancels]
  | awaited worker current => simp [Queue.awaited, Command.submission?, cancels]
  | @closed id outcome job ended found ok =>
    rw [cancels_finish found ok]
    by_cases hs : job.status = .queued <;>
      simp [Queue.evict, Queue.reposition, Queue.closed, Command.submission?, hs]

theorem kept_order {command : Command} (h : q.handed command now = none) :
    (q.kept command).pending = (q.pending ++ command.submission?.toList.map Submission.id).filter
      fun id => id ∉ q.cancels command now := by
  obtain ⟨jobs, waiting, hkept⟩ := q.kept_eq command
  rw [cancels_of_not_handed h, hkept]
  cases command with
  | enqueue s => cases h
  | claim _ | leave _ | update _ _ | finish _ _ => simp [Command.submission?]

theorem Handed.plansFrom {command : Command} (h : Handed q now command m)
    (hp : q.PlansFrom submitted) : m.PlansFrom (submitted ++ command.submission?.toList) := by
  intro id plan outputName hf
  apply List.mem_append.2
  cases h with
  | admitted s =>
    change (Table.insert s.id (s.plan, s.outputName) q.plans).find? id = _ at hf
    rw [Table.find?_insert] at hf
    split at hf
    · next he =>
      cases hf
      subst he
      exact .inr (List.mem_singleton.2 rfl)
    · exact .inl (hp id plan outputName hf)
  | awaited worker current => exact .inl (hp id plan outputName hf)
  | @closed other outcome job ended found ok =>
    change (if job.status = .queued then q.plans.erase other else q.plans).find? id = _ at hf
    split at hf
    · rw [Table.find?_erase] at hf
      split at hf
      · cases hf
      · exact .inl (hp id plan outputName hf)
    · exact .inl (hp id plan outputName hf)

end

/-- One step on the account of ids: new ids come last, and what is cancelled was
still in the line. -/
theorem account_step {delivered pending submitted new cancelled ended : List String}
    (account : delivered ++ pending = submitted.filter fun id => id ∉ cancelled)
    (fresh : (submitted ++ new).Nodup) (hc : cancelled ⊆ submitted) (he : ended ⊆ pending) :
    delivered ++ (pending ++ new).filter (fun id => id ∉ ended) =
      (submitted ++ new).filter fun id => id ∉ cancelled ++ ended := by
  have hnodup : (delivered ++ pending).Nodup := account ▸ fresh.of_append_left.filter _
  have hdelivered : delivered.filter (fun id => id ∉ ended) = delivered := by
    rw [List.filter_eq_self]
    intro id hid
    have hp : id ∉ pending := fun hp => (List.nodup_append.1 hnodup).2.2 id hid id hp rfl
    simpa using fun h => hp (he h)
  have hnew : new.filter (fun id => id ∉ cancelled) = new := by
    rw [List.filter_eq_self]
    intro id hid
    have hs : id ∉ submitted := fun hs => (List.nodup_append.1 fresh).2.2 id hs id hid rfl
    simpa using fun h => hs (hc h)
  calc delivered ++ (pending ++ new).filter (fun id => id ∉ ended)
      = ((delivered ++ pending) ++ new).filter (fun id => id ∉ ended) := by
        rw [List.append_assoc, List.filter_append delivered, hdelivered]
    _ = ((submitted ++ new).filter fun id => id ∉ cancelled).filter fun id => id ∉ ended := by
        rw [account, List.filter_append submitted, hnew]
    _ = (submitted ++ new).filter fun id => id ∉ cancelled ++ ended := by
        rw [List.filter_filter]
        congr 1
        funext id
        simp [List.mem_append, not_or, Bool.and_comm]

/-- The account of a history. -/
structure Accounted (events : List Event) (h : History) : Prop where
  order : deliveredIds h.delivered ++ h.queue.pending =
    ((submissions events).map Submission.id).filter fun id => id ∉ h.cancelled
  cancelled_subset : h.cancelled ⊆ (submissions events).map Submission.id
  plans : h.queue.PlansFrom (submissions events)
  carries : ∀ c ∈ h.delivered, Carries (submissions events) c

/-- What one step adds to the delivered jobs and leaves in the line. -/
theorem Settled.step_account {q : Queue} (h : q.Settled) {e : Event} (fresh : q.Fresh e.command)
    {submitted : List Submission} (hp : q.PlansFrom submitted) :
    deliveredIds (deliveries (q.step e.command e.now e.reached).2) ++
        (q.step e.command e.now e.reached).1.pending =
      (q.pending ++ e.command.submission?.toList.map Submission.id).filter
        (fun id => id ∉ q.cancels e.command e.now) ∧
    (q.step e.command e.now e.reached).1.PlansFrom
      (submitted ++ e.command.submission?.toList) ∧
    ∀ c ∈ deliveries (q.step e.command e.now e.reached).2,
      Carries (submitted ++ e.command.submission?.toList) c := by
  cases hm : q.handed e.command e.now with
  | none =>
    obtain ⟨hstep, hnone⟩ := step_of_not_handed hm e.reached
    rw [hstep, hnone]
    refine ⟨kept_order hm, ?_, fun c hc => absurd hc List.not_mem_nil⟩
    intro id plan outputName hf
    obtain ⟨jobs, waiting, hkept⟩ := q.kept_eq e.command
    rw [hkept] at hf
    exact List.mem_append_left _ (hp id plan outputName hf)
  | some m =>
    obtain ⟨hstep, hdelivered⟩ := step_of_handed hm e.reached
    have hprepared := h.handed fresh hm
    have hd := hprepared.dispatched e.now e.reached
    have hplans := (handed_cases hm).plansFrom hp
    rw [hstep, hdelivered, hd.order hprepared.toConsistent]
    exact ⟨(handed_cases hm).order, hd.plansFrom hplans, hd.carries hprepared.toConsistent hplans⟩

theorem accounted_history (retained : Nat) (events : List Event) (fresh : FreshIds events) :
    Accounted events (history retained events) := by
  -- on the last event; that the queue before it is settled comes from `sourced_history`
  induction events using List.reverseRecOn with
  | nil =>
    exact {
      order := rfl
      cancelled_subset := List.nil_subset _
      plans := fun id plan outputName hf => by
        change Table.find? [] id = _ at hf
        rw [Table.find?_nil] at hf
        cases hf
      carries := fun c hc => absurd hc List.not_mem_nil }
  | append_singleton events e ih =>
    obtain ⟨horder, hcancelled, hplans, hcarries⟩ := ih fresh.of_snoc
    have hs := sourced_history retained events fresh.of_snoc
    obtain ⟨hstep, hplans', hcarries'⟩ := hs.settled.step_account (hs.fresh fresh) hplans
    have hsub := hs.settled.cancels_subset e.command e.now
    have hn : ((submissions events).map Submission.id ++
        e.command.submission?.toList.map Submission.id).Nodup := by
      rw [← List.map_append, ← submissions_snoc]
      exact fresh
    rw [history_snoc]
    constructor
    · simp only [History.next, deliveredIds, List.map_append, List.append_assoc]
      rw [submissions_snoc, List.map_append]
      rw [deliveredIds] at hstep
      rw [hstep]
      exact account_step horder hn hcancelled hsub
    · intro id hid
      rw [submissions_snoc, List.map_append]
      apply List.mem_append_left
      rcases List.mem_append.1 hid with hid | hid
      · exact hcancelled hid
      · exact hs.submitted id (.inl (hsub hid))
    · rw [submissions_snoc]
      exact hplans'
    · intro c hc
      rw [submissions_snoc]
      rcases List.mem_append.1 hc with hc | hc
      · exact (hcarries c hc).mono (List.subset_append_left _ _)
      · exact hcarries' c hc

/-- At every point of every history without a repeated id, the delivered jobs
followed by the line are the submissions in order, without those that ended in
the line; and what is delivered is what was submitted. -/
theorem fifo_of_history (retained : Nat) (events : List Event) (fresh : FreshIds events) :
    deliveredIds (history retained events).delivered ++ (history retained events).queue.pending =
        ((submissions events).map Submission.id).filter
          (fun id => id ∉ (history retained events).cancelled) ∧
      (deliveredIds (history retained events).delivered).Nodup ∧
      ∀ c ∈ (history retained events).delivered, Carries (submissions events) c := by
  obtain ⟨horder, _, _, hcarries⟩ := accounted_history retained events fresh
  refine ⟨horder, ?_, hcarries⟩
  have hn := fresh.filter fun id => id ∉ (history retained events).cancelled
  rw [← horder] at hn
  exact hn.of_append_left

theorem fifo_of_threeJobs :
    FreshIds threeJobs ∧ (history 1 threeJobs).cancelled = ["a"] ∧
      deliveredIds (history 1 threeJobs).delivered ++ (history 1 threeJobs).queue.pending =
        ((submissions threeJobs).map Submission.id).filter
          (fun id => id ∉ (history 1 threeJobs).cancelled) ∧
      deliveredIds (history 1 threeJobs).delivered = ["b"] :=
  ⟨by decide, by decide, (fifo_of_history 1 threeJobs (by decide)).1, by decide⟩

end RenderGateway.Queue
