import RenderGateway.Queue.Basic

/-!
# The steps of the queue

Three commands hand a state to the dispatcher: a submission that stands in the
line, a worker that took the waiting place, and a job that ended. The other
commands, and those that are refused, deliver nothing. `step_of_handed` and
`step_of_not_handed` say what a step amounts to in either case.
-/

namespace RenderGateway.Queue

/-- A command with the time of its service, and whether a worker that is served
then is still there when its answer is sent. -/
structure Event where
  command : Command
  now : Instant
  reached : Bool

namespace Notice

/-- The job that reached a worker. -/
def delivered? : Notice → Option ClaimedJob
  | answered _ (.ok claimed) => some claimed
  | _ => none

end Notice

/-- The jobs that reached a worker, in order. -/
def deliveries (notices : List Notice) : List ClaimedJob := notices.filterMap Notice.delivered?

theorem deliveries_append (xs ys : List Notice) :
    deliveries (xs ++ ys) = deliveries xs ++ deliveries ys := List.filterMap_append

theorem deliveries_answered (worker : Nat) (claimed : ClaimedJob) :
    deliveries [.answered worker (.ok claimed)] = [claimed] := rfl

/-- The state with a submission at the end of the line. -/
def admitted (q : Queue) (s : Submission) (now : Instant) : Queue :=
  { q with
    jobs := Table.insert s.id (Job.queued s.id s.plan (q.positionOf q.pending.length) now) q.jobs
    plans := Table.insert s.id (s.plan, s.outputName) q.plans
    pending := q.pending ++ [s.id] }

/-- The state with a worker in the waiting place. -/
def awaited (q : Queue) (worker : Nat) : Queue := { q with waiting := some ⟨worker, true⟩ }

/-- What is told to a worker whose waiting place another one takes. -/
def displaced (q : Queue) : List Notice :=
  match q.waiting with
  | some ⟨other, true⟩ => [.answered other (.error .stopped)]
  | _ => []

/-- The state with the ended record of a job, before old ones are dropped. -/
def closed (q : Queue) (id : String) (job ended : Job) : Queue :=
  { q with
    jobs := Table.insert id ended q.jobs
    plans := if job.status = .queued then q.plans.erase id else q.plans
    pending := if job.status = .queued then q.pending.filter (· ≠ id) else q.pending
    current := if q.current = some id then none else q.current
    finished := q.finished ++ [id] }

/-- The state that a command hands to the dispatcher, if it does. -/
def handed (q : Queue) (command : Command) (now : Instant) : Option Queue :=
  match command with
  | .enqueue s => some (q.admitted s now)
  | .claim worker => if q.current = none then some (q.awaited worker) else none
  | .finish id outcome =>
    (q.jobs.find? id).bind fun job =>
      (job.finish outcome now).toOption.map fun ended => (q.closed id job ended).evict.reposition
  | .leave _ | .update _ _ => none

/-- The state after a command that hands nothing to the dispatcher. -/
def kept (q : Queue) : Command → Queue
  | .leave worker => q.leave worker
  | .update id u => q.update id u
  | _ => q

/-- A command that hands over nothing changes the records of jobs and the waiting place only. -/
theorem kept_eq (q : Queue) (command : Command) :
    ∃ jobs waiting, q.kept command = { q with jobs, waiting } := by
  cases command with
  | leave worker =>
    change ∃ jobs waiting, q.leave worker = _
    unfold leave
    split
    · split
      · exact ⟨_, _, rfl⟩
      · exact ⟨_, _, rfl⟩
    · exact ⟨_, _, rfl⟩
  | enqueue _ | claim _ | update _ _ | finish _ _ => exact ⟨_, _, rfl⟩

/-- The ways in which a command reaches the dispatcher. -/
inductive Handed (q : Queue) (now : Instant) : Command → Queue → Prop
  | admitted (s : Submission) : Handed q now (.enqueue s) (q.admitted s now)
  | awaited (worker : Nat) (current : q.current = none) :
      Handed q now (.claim worker) (q.awaited worker)
  | closed {id : String} {outcome : JobOutcome} {job ended : Job}
      (found : q.jobs.find? id = some job) (ok : job.finish outcome now = .ok ended) :
      Handed q now (.finish id outcome) (q.closed id job ended).evict.reposition

theorem handed_cases {q m : Queue} {command : Command} {now : Instant}
    (h : q.handed command now = some m) : Handed q now command m := by
  cases command with
  | enqueue s =>
    cases h
    exact .admitted s
  | claim worker =>
    by_cases hc : q.current = none
    · simp only [handed, if_pos hc, Option.some.injEq] at h
      exact h ▸ .awaited worker hc
    · simp [handed, if_neg hc] at h
  | leave worker => cases h
  | update id u => cases h
  | finish id outcome =>
    simp only [handed, Option.bind_eq_some_iff, Option.map_eq_some_iff] at h
    obtain ⟨job, found, ended, he, rfl⟩ := h
    cases hf : job.finish outcome now with
    | error r => simp [hf, Except.toOption] at he
    | ok k =>
      simp only [hf, Except.toOption, Option.some.injEq] at he
      exact .closed found (he ▸ hf)

theorem claim_of_current {q : Queue} {id : String} (current : q.current = some id) (worker : Nat)
    (now : Instant) (reached : Bool) :
    q.claim worker now reached = (q, [.answered worker (.error (.busy id))]) := by
  simp only [claim, current]

theorem claim_of_idle {q : Queue} (current : q.current = none) (worker : Nat) (now : Instant)
    (reached : Bool) :
    q.claim worker now reached =
      (((q.awaited worker).dispatch now reached).1,
        q.displaced ++ ((q.awaited worker).dispatch now reached).2) := by
  unfold claim
  split
  · next hs => cases current.symm.trans hs
  · rfl

theorem enqueue_eq (q : Queue) (s : Submission) (now : Instant) (reached : Bool) :
    ∃ job, q.enqueue s now reached =
      (((q.admitted s now).dispatch now reached).1,
        ((q.admitted s now).dispatch now reached).2 ++ [.queued job]) := ⟨_, rfl⟩

theorem finish_of_ended {q : Queue} {id : String} {outcome : JobOutcome} {now : Instant}
    {job ended : Job} (found : q.jobs.find? id = some job)
    (ok : job.finish outcome now = .ok ended) (reached : Bool) :
    q.finish id outcome now reached =
      (((q.closed id job ended).evict.reposition.dispatch now reached).1,
        ((q.closed id job ended).evict.reposition.dispatch now reached).2 ++
          [.finished (.ok ended)]) := by
  simp only [finish, found, ok]
  rfl

theorem finish_of_not_handed {q : Queue} {id : String} {outcome : JobOutcome} {now : Instant}
    (h : q.handed (.finish id outcome) now = none) (reached : Bool) :
    ∃ error, q.finish id outcome now reached = (q, [.finished (.error error)]) := by
  cases hj : q.jobs.find? id with
  | none => exact ⟨.jobNotFound id, by simp only [finish, hj]⟩
  | some job =>
    cases hf : job.finish outcome now with
    | ok k => simp [handed, hj, hf, Except.toOption] at h
    | error r => exact ⟨.refused r, by simp only [finish, hj, hf]⟩

theorem step_of_handed {q m : Queue} {command : Command} {now : Instant}
    (h : q.handed command now = some m) (reached : Bool) :
    (q.step command now reached).1 = (m.dispatch now reached).1 ∧
      deliveries (q.step command now reached).2 = deliveries (m.dispatch now reached).2 := by
  cases handed_cases h with
  | admitted s =>
    obtain ⟨job, he⟩ := q.enqueue_eq s now reached
    rw [step, he, deliveries_append]
    exact ⟨rfl, List.append_nil _⟩
  | awaited worker current =>
    rw [step, claim_of_idle current, deliveries_append]
    refine ⟨rfl, ?_⟩
    unfold displaced
    split <;> rfl
  | closed found ok =>
    rw [step, finish_of_ended found ok, deliveries_append]
    exact ⟨rfl, List.append_nil _⟩

theorem step_of_not_handed {q : Queue} {command : Command} {now : Instant}
    (h : q.handed command now = none) (reached : Bool) :
    (q.step command now reached).1 = q.kept command ∧
      deliveries (q.step command now reached).2 = [] := by
  cases command with
  | enqueue s => cases h
  | claim worker =>
    cases hc : q.current with
    | none => simp [handed, hc] at h
    | some id =>
      rw [step, claim_of_current hc]
      exact ⟨rfl, rfl⟩
  | leave worker => exact ⟨rfl, rfl⟩
  | update id u => exact ⟨rfl, rfl⟩
  | finish id outcome =>
    obtain ⟨error, he⟩ := finish_of_not_handed h reached
    rw [step, he]
    exact ⟨rfl, rfl⟩

end RenderGateway.Queue
