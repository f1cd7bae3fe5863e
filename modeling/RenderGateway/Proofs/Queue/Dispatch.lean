import RenderGateway.Proofs.Queue.Consistent

/-!
# Serving the line

`Prepared` is what the dispatcher relies on and `Settled` what it leaves: then
nobody waits while there is something to serve. `Dispatched` lists what it can
do in a prepared state. The head of the line always starts, so no job is ever
passed over.
-/

namespace RenderGateway.Queue

structure Prepared (q : Queue) : Prop extends Consistent q where
  positioned : q.Positioned
  finished_length_le : q.finished.length ≤ q.retained
  current_of_waiting : q.waiting.isSome = true → q.current = none

structure Settled (q : Queue) : Prop extends Prepared q where
  pending_of_waiting : q.waiting.isSome = true → q.pending = []

/-- Every job of the line has a record and a plan, and it can start. -/
def Ready (q : Queue) (now : Instant) : Prop :=
  ∀ id ∈ q.pending, ∃ job plan started, q.jobs.find? id = some job ∧
    q.plans.find? id = some plan ∧ job.start now = .ok started

theorem Consistent.ready {q : Queue} (h : q.Consistent) (now : Instant) : q.Ready now := by
  intro id hid
  obtain ⟨job, plan, outputName, hj, hs, hplan⟩ := h.exists_of_mem_pending hid
  exact ⟨job, (plan, outputName), job.started now, hj, hplan, Job.start_of_queued hs now⟩

/-- The state in which the head of the line is running. -/
def served (q : Queue) (s : Submission) (rest : List String) (started : Job) : Queue :=
  running { q with waiting := none, plans := q.plans.erase s.id, pending := rest } s started

/-- What the dispatcher does with a prepared state. -/
inductive Dispatched (q : Queue) (now : Instant) : Queue → List Notice → Prop
  /-- Nobody waits, or there is nothing to serve. -/
  | idle (h : q.waiting.isSome = true → q.pending = []) : Dispatched q now q []
  /-- The one who waited is known to have left. -/
  | left : Dispatched q now { q with waiting := none } []
  | delivered {s : Submission} {rest : List String} {job : Job} {worker : Nat}
      (current : q.current = none) (pending : q.pending = s.id :: rest)
      (found : q.jobs.find? s.id = some job) (queued : job.status = .queued)
      (planned : q.plans.find? s.id = some (s.plan, s.outputName)) :
      Dispatched q now (q.served s rest (job.started now))
        [.answered worker (.ok ⟨job.started now, s.plan, s.outputName⟩)]
  /-- The worker vanished before the answer was sent. -/
  | returned {s : Submission} {rest : List String} {job : Job}
      (current : q.current = none) (pending : q.pending = s.id :: rest)
      (found : q.jobs.find? s.id = some job) (queued : job.status = .queued)
      (planned : q.plans.find? s.id = some (s.plan, s.outputName)) :
      Dispatched q now ((q.served s rest (job.started now)).putBack s now) []

theorem takeNext_cons {q : Queue} {s : Submission} {job : Job}
    (found : q.jobs.find? s.id = some job) (queued : job.status = .queued)
    (planned : q.plans.find? s.id = some (s.plan, s.outputName)) (now : Instant)
    (rest : List String) :
    q.takeNext now (s.id :: rest) =
      ({ q with plans := q.plans.erase s.id, pending := rest }, some (s, job.started now)) := by
  simp only [takeNext, found, planned, Job.start_of_queued queued]

section

variable {q : Queue} {worker : Nat} (now : Instant) (reached : Bool)

theorem dispatch_of_not_waiting (hw : q.waiting = none) : q.dispatch now reached = (q, []) := by
  simp only [dispatch]
  split
  · next hs => cases hw.symm.trans hs
  · next hs => cases hw.symm.trans hs
  · rfl

theorem dispatch_of_busy {id : String} (hc : q.current = some id) :
    q.dispatch now reached = (q, []) := by
  simp only [dispatch]
  split
  · next hs _ => cases hc.symm.trans hs
  · next hs _ => cases hc.symm.trans hs
  · rfl

theorem dispatch_of_left (hc : q.current = none) (hw : q.waiting = some ⟨worker, false⟩) :
    q.dispatch now reached = ({ q with waiting := none }, []) := by
  simp only [dispatch]
  split
  · next hs => cases hw.symm.trans hs
  · rfl
  · next hd => exact (hd _ hc hw).elim

/-- A waiting worker gets what comes first in the line. -/
theorem dispatch_of_waiting {next : Queue × Option (Submission × Job)} (hc : q.current = none)
    (hw : q.waiting = some ⟨worker, true⟩)
    (hn : ({ q with waiting := none } : Queue).takeNext now q.pending = next) :
    q.dispatch now reached =
      match next.2 with
      | none => ({ next.1 with waiting := some ⟨worker, true⟩ }, [])
      | some (s, started) =>
        if reached then
          (next.1.running s started, [.answered worker (.ok ⟨started, s.plan, s.outputName⟩)])
        else ((next.1.running s started).putBack s now, []) := by
  subst hn
  simp only [dispatch]
  split
  · next hs =>
    cases hw.symm.trans hs
    rfl
  · next hs => cases hw.symm.trans hs
  · next hd _ => exact (hd worker hc hw).elim

end

/-- The dispatcher tells workers of jobs, and nothing else. -/
theorem exists_of_mem_dispatch {q : Queue} {now : Instant} {reached : Bool} {n : Notice}
    (h : n ∈ (q.dispatch now reached).2) : ∃ worker claimed, n = .answered worker (.ok claimed) := by
  revert h
  simp only [dispatch]
  split
  · split
    · exact fun h => absurd h List.not_mem_nil
    · split
      · exact fun h => ⟨_, _, List.mem_singleton.1 h⟩
      · exact fun h => absurd h List.not_mem_nil
  · exact fun h => absurd h List.not_mem_nil
  · exact fun h => absurd h List.not_mem_nil

theorem findSome?_finished_dispatch (q : Queue) (now : Instant) (reached : Bool) :
    (q.dispatch now reached).2.findSome? Notice.finished? = none := by
  rw [List.findSome?_eq_none_iff]
  intro n hn
  obtain ⟨worker, claimed, rfl⟩ := exists_of_mem_dispatch hn
  rfl

/-- The end of a job is told to the one who asked for it. -/
theorem findSome?_finished_finish {q : Queue} {id : String} {job ended : Job}
    (hj : q.jobs.find? id = some job) {outcome : JobOutcome} {now : Instant}
    (hended : job.finish outcome now = .ok ended) (reached : Bool) :
    (q.finish id outcome now reached).2.findSome? Notice.finished? = some (.ok ended) := by
  simp only [finish, hj, hended, List.findSome?_append, findSome?_finished_dispatch]
  rfl

/-- What the dispatcher does for a worker who waits while there is something to serve. -/
theorem Prepared.dispatch_of_pending {q : Queue} (h : q.Prepared) {worker : Nat}
    (hw : q.waiting = some ⟨worker, true⟩) {id : String} {rest : List String}
    (hp : q.pending = id :: rest) (now : Instant) :
    ∃ s job, s.id = id ∧ q.jobs.find? s.id = some job ∧ job.status = .queued ∧
      q.plans.find? s.id = some (s.plan, s.outputName) ∧
      ∀ reached, q.dispatch now reached =
        if reached then
          (q.served s rest (job.started now),
            [.answered worker (.ok ⟨job.started now, s.plan, s.outputName⟩)])
        else ((q.served s rest (job.started now)).putBack s now, []) := by
  have hc : q.current = none := h.current_of_waiting (by simp [hw])
  obtain ⟨job, plan, outputName, found, queued, planned⟩ :=
    h.exists_of_mem_pending (show id ∈ q.pending by simp [hp])
  let s : Submission := ⟨id, plan, outputName⟩
  have ht := takeNext_cons (q := { q with waiting := none }) (s := s) found queued planned now rest
  rw [show s.id :: rest = q.pending from hp.symm] at ht
  refine ⟨s, job, rfl, found, queued, planned, fun reached => ?_⟩
  rw [dispatch_of_waiting now reached hc hw ht]
  rfl

/-- Where there is nothing to serve, the worker goes on waiting. -/
theorem Prepared.dispatch_of_no_pending {q : Queue} (h : q.Prepared) {worker : Nat}
    (hw : q.waiting = some ⟨worker, true⟩) (hp : q.pending = []) (now : Instant)
    (reached : Bool) : q.dispatch now reached = (q, []) := by
  have hc : q.current = none := h.current_of_waiting (by simp [hw])
  have ht : ({ q with waiting := none } : Queue).takeNext now q.pending =
      ({ q with waiting := none }, none) := by
    simp only [hp, takeNext]
  have hq : ({ q with waiting := some ⟨worker, true⟩ } : Queue) = q := by rw [← hw]
  rw [dispatch_of_waiting now reached hc hw ht]
  exact congrArg (·, []) hq

theorem Prepared.dispatched {q : Queue} (h : q.Prepared) (now : Instant) (reached : Bool) :
    Dispatched q now (q.dispatch now reached).1 (q.dispatch now reached).2 := by
  cases hw : q.waiting with
  | none =>
    rw [dispatch_of_not_waiting now reached hw]
    exact .idle (by simp [hw])
  | some w =>
    obtain ⟨worker, present⟩ := w
    have hc : q.current = none := h.current_of_waiting (by simp [hw])
    cases present with
    | false =>
      rw [dispatch_of_left now reached hc hw]
      exact .left
    | true =>
      by_cases hp : q.pending = []
      · rw [h.dispatch_of_no_pending hw hp]
        exact .idle fun _ => hp
      · obtain ⟨id, rest, hp⟩ := List.exists_cons_of_ne_nil hp
        obtain ⟨s, job, rfl, found, queued, planned, hd⟩ := h.dispatch_of_pending hw hp now
        rw [hd reached]
        cases reached with
        | true => exact .delivered hc hp found queued planned
        | false => exact .returned hc hp found queued planned

end RenderGateway.Queue
