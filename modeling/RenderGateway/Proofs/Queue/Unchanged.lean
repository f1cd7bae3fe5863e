import RenderGateway.Proofs.Queue.History

/-!
# Commands that change nothing

A command that is refused leaves the queue as it is. So does an answer that reaches nobody: the job
that had been started for it goes back to its place and its record is made anew from the plan. This
is the record that was there before, but for its time of creation, because nothing else has
happened to a job while it waits: `Untouched` says so of every job of the line.
-/

namespace RenderGateway

namespace Job

theorem become_then_error_iff {j : Job} {status : JobStatus} {fill : Job → Job} {r : Refusal} :
    (do let m ← j.become status; return fill m) = Except.error r ↔
      j.status.canBecome status = false ∧ r = .transition j.status status := by
  by_cases hc : j.status.canBecome status = true
  · simp [become, hc, bind, Except.bind, pure, Except.pure]
  · simp [become, hc, bind, Except.bind, eq_comm]

/-- An end is refused exactly where the life of a job does not allow it. -/
theorem finish_error_iff {j : Job} {outcome : JobOutcome} {now : Instant} {r : Refusal} :
    j.finish outcome now = .error r ↔
      j.status.canBecome outcome.status = false ∧ r = .transition j.status outcome.status := by
  cases outcome with
  | rendered output => exact become_then_error_iff
  | failed fault => exact become_then_error_iff
  | settled artifacts => exact become_then_error_iff

end Job

namespace Queue

/-- Both states hold the same jobs and plans, in the same places. -/
structure Keeps (q r : Queue) : Prop where
  jobs : ∀ id, r.jobs.find? id = q.jobs.find? id
  plans : ∀ id, r.plans.find? id = q.plans.find? id
  pending : r.pending = q.pending
  current : r.current = q.current
  finished : r.finished = q.finished

/-- The state with another time of creation for a job. -/
def recreated (q : Queue) (id : String) (now : Instant) : Queue :=
  { q with jobs := q.jobs.modify id fun j => { j with createdAt := now } }

/-- If a job waits under the id, its record is as it was made from its plan. -/
def UntouchedAt (q : Queue) (id : String) : Prop :=
  id ∈ q.pending → ∀ j plan outputName, q.jobs.find? id = some j →
    q.plans.find? id = some (plan, outputName) →
    ∃ created, j = Job.queued id plan j.queuePosition created

def Untouched (q : Queue) : Prop := ∀ id, q.UntouchedAt id

section

variable {q r m : Queue} {id : String} {now : Instant}

theorem Keeps.refl (q : Queue) : q.Keeps q := ⟨fun _ => rfl, fun _ => rfl, rfl, rfl, rfl⟩

theorem Keeps.trans (h : q.Keeps m) (h' : m.Keeps r) : q.Keeps r where
  jobs id := (h'.jobs id).trans (h.jobs id)
  plans id := (h'.plans id).trans (h.plans id)
  pending := h'.pending.trans h.pending
  current := h'.current.trans h.current
  finished := h'.finished.trans h.finished

/-- A job that was made at the time is not made anew. -/
theorem keeps_recreated (h : ∀ j, q.jobs.find? id = some j → j.createdAt = now) :
    q.Keeps (q.recreated id now) := by
  refine { Keeps.refl q with jobs := fun other => ?_ }
  rw [recreated, Table.find?_modify]
  split
  · next ho =>
    subst ho
    cases hj : q.jobs.find? id with
    | none => rfl
    | some j => rw [Option.map_some, ← h j hj]
  · rfl

/-! ### Jobs that wait are untouched -/

namespace Untouched

theorem empty (retained : Nat) : (Queue.empty retained).Untouched := fun _ hid =>
  absurd hid List.not_mem_nil

theorem of_keeps (h : q.Untouched) (hk : q.Keeps r) : r.Untouched := by
  intro id hid j plan outputName hj hplan
  rw [hk.pending] at hid
  rw [hk.jobs] at hj
  rw [hk.plans] at hplan
  exact h id hid j plan outputName hj hplan

/-- A change that concerns one id has to be looked at for that id only. -/
theorem of_alikeExcept (h : q.Untouched) (id : String) (alike : AlikeExcept id q r)
    (hid : r.UntouchedAt id) : r.Untouched := by
  intro other hmem j plan outputName hj hplan
  by_cases ho : other = id
  · exact ho ▸ hid (ho ▸ hmem) j plan outputName (ho ▸ hj) (ho ▸ hplan)
  · rw [alike.pending other ho] at hmem
    rw [alike.jobs other ho] at hj
    rw [alike.plans other ho] at hplan
    exact h other hmem j plan outputName hj hplan

theorem reposition (h : q.Untouched) (hn : q.pending.Nodup) : q.reposition.Untouched := by
  intro id hid j plan outputName hj hplan
  rw [find?_reposition q hn, Option.map_eq_some_iff] at hj
  obtain ⟨k, hk, rfl⟩ := hj
  obtain ⟨created, hmade⟩ := h id hid k plan outputName hk hplan
  refine ⟨created, ?_⟩
  change id ∈ q.pending at hid
  rw [if_pos hid, hmade]
  rfl

theorem evict (h : q.Untouched) : q.evict.Untouched := by
  intro id hid j plan outputName hj hplan
  change ((q.finished.take _).foldl Table.erase q.jobs).find? id = some j at hj
  rw [Table.find?_foldl_erase] at hj
  split at hj
  · cases hj
  · exact h id hid j plan outputName hj hplan

theorem recreated (h : q.Untouched) (id : String) (now : Instant) :
    (q.recreated id now).Untouched := by
  intro other hid j plan outputName hj hplan
  simp only [Queue.recreated, Table.find?_modify] at hj
  split at hj
  · obtain ⟨k, hk, rfl⟩ := Option.map_eq_some_iff.1 hj
    obtain ⟨created, hmade⟩ := h other hid k plan outputName hk hplan
    refine ⟨now, ?_⟩
    rw [hmade]
    rfl
  · exact h other hid j plan outputName hj hplan

theorem admitted (h : q.Untouched) (s : Submission) (now : Instant) :
    (q.admitted s now).Untouched := by
  apply h.of_alikeExcept s.id (alikeExcept_admitted q s now)
  intro _ j plan outputName hj hplan
  simp only [Queue.admitted, Table.find?_insert, if_true, Option.some.injEq] at hj hplan
  subst hj
  cases hplan
  exact ⟨now, rfl⟩

theorem closed (h : q.Untouched) (hq : q.Consistent) {job ended : Job}
    (found : q.jobs.find? id = some job) (hend : job.Ended ended) :
    (q.closed id job ended).Untouched := by
  apply h.of_alikeExcept id (alikeExcept_closed q id job ended)
  intro hid
  -- a job that ended is in the line no more
  have hr : (q.closed id job ended).Recorded id ended :=
    (hq.closed found hend).recorded (by simp [Queue.closed, Table.find?_insert])
  have hqueued := hr.queued_iff.2 hid
  have hterminal := hend.terminal
  rw [Job.isTerminal, hqueued] at hterminal
  cases hterminal

theorem served (h : q.Untouched) (hq : q.Consistent) {s : Submission} {rest : List String}
    (current : q.current = none) (pending : q.pending = s.id :: rest) (started : Job) :
    (q.served s rest started).Untouched := by
  have hn := hq.pending_nodup
  rw [pending, List.nodup_cons] at hn
  apply Untouched.reposition _ hn.2
  apply h.of_alikeExcept s.id (alikeExcept_served current pending started)
  exact fun hid => absurd hid hn.1

theorem update (h : q.Untouched) (hq : q.Consistent) (id : String) (u : JobUpdate) :
    (q.update id u).Untouched := by
  apply h.of_alikeExcept id (alikeExcept_update q id u)
  intro hid j plan outputName hj hplan
  rw [find?_update, if_pos rfl] at hj
  obtain ⟨k, hk, rfl⟩ := Option.map_eq_some_iff.1 hj
  have hqueued : k.status = .queued := (hq.recorded hk).queued_iff.2 hid
  rw [Job.updated_of_not_running (by simp [hqueued])]
  exact h id hid k plan outputName hk hplan

theorem kept (h : q.Untouched) (hq : q.Consistent) (command : Command) :
    (q.kept command).Untouched := by
  cases command with
  | update id u => exact h.update hq id u
  | leave worker =>
    change (q.leave worker).Untouched
    unfold leave
    split
    · split
      · exact h
      · exact h
    · exact h
  | enqueue _ | claim _ | finish _ _ => exact h

end Untouched

/-! ### An answer that reaches nobody -/

theorem positionOf_of_idle (h : q.current = none) (index : Nat) :
    q.positionOf index = Word.ofNat index := by
  simp [positionOf, h]

theorem find?_served {s : Submission} {rest : List String} (hn : rest.Nodup) (started : Job)
    {other : String} (ho : other ≠ s.id) :
    ∃ position, (q.served s rest started).jobs.find? other = (q.jobs.find? other).map fun j =>
      if other ∈ rest then { j with queuePosition := position } else j := by
  have h := find?_reposition { q with
    jobs := Table.insert s.id started q.jobs
    plans := q.plans.erase s.id
    pending := rest
    current := some s.id
    waiting := none } hn other
  simp only [Table.find?_insert, if_neg ho.symm] at h
  exact ⟨_, h⟩

theorem find?_putBack {s : Submission} (hn : (s.id :: q.pending).Nodup) (now : Instant)
    (other : String) :
    (q.putBack s now).jobs.find? other =
      if s.id = other then some (Job.queued s.id s.plan 0 now)
      else (q.jobs.find? other).map fun j =>
        if other ∈ q.pending then
          { j with queuePosition := Word.ofNat ((s.id :: q.pending).idxOf other) }
        else j := by
  have h := find?_reposition { q with
    jobs := Table.insert s.id (Job.queued s.id s.plan 0 now) q.jobs
    plans := Table.insert s.id (s.plan, s.outputName) q.plans
    pending := s.id :: q.pending
    current := none } hn other
  refine h.trans ?_
  rw [Table.find?_insert]
  by_cases ho : s.id = other
  · subst ho
    rw [if_pos rfl, if_pos rfl, Option.map_some, if_pos List.mem_cons_self, List.idxOf_cons_self]
    rfl
  · simp only [if_neg ho, List.mem_cons, Ne.symm ho, false_or]
    rfl

/-- The head of the line, started in vain, is back where it was. -/
theorem Prepared.keeps_returned (h : q.Prepared) (untouched : q.Untouched) {s : Submission}
    {rest : List String} {job : Job} (current : q.current = none)
    (pending : q.pending = s.id :: rest) (found : q.jobs.find? s.id = some job)
    (planned : q.plans.find? s.id = some (s.plan, s.outputName)) (now : Instant) :
    (q.recreated s.id now).Keeps ((q.served s rest (job.started now)).putBack s now) := by
  have hhead : s.id ∈ q.pending := by simp [pending]
  have hn := h.pending_nodup
  rw [pending] at hn
  constructor
  · intro other
    rw [find?_putBack hn]
    simp only [Queue.recreated, Table.find?_modify]
    by_cases ho : s.id = other
    · subst ho
      obtain ⟨created, hmade⟩ := untouched s.id hhead job s.plan s.outputName found planned
      have hposition : job.queuePosition = 0 := by
        rw [h.positioned s.id hhead job found, pending, List.idxOf_cons_self,
          positionOf_of_idle current]
        rfl
      rw [if_pos rfl, if_pos rfl, found, hmade, hposition]
      rfl
    · obtain ⟨position, hserved⟩ := find?_served (q := q) (s := s) (List.nodup_cons.1 hn).2
        (job.started now) (Ne.symm ho)
      rw [if_neg ho, if_neg ho, hserved, Option.map_map]
      cases hj : q.jobs.find? other with
      | none => rfl
      | some j =>
        by_cases hr : other ∈ rest
        · have hmem : other ∈ q.pending := pending ▸ List.mem_cons_of_mem _ hr
          have hposition := h.positioned other hmem j hj
          rw [pending, positionOf_of_idle current] at hposition
          have hback : other ∈ (q.served s rest (job.started now)).pending := hr
          simp only [Option.map_some, Function.comp_apply, if_pos hr, if_pos hback]
          exact congrArg (fun position => some { j with queuePosition := position }) hposition.symm
        · simp only [Option.map_some, Function.comp_apply, if_neg hr]
          exact congrArg some (if_neg hr)
  · intro other
    change (Table.insert s.id (s.plan, s.outputName) (q.plans.erase s.id)).find? other = _
    rw [Table.find?_insert, Table.find?_erase]
    split
    · next ho => exact (ho ▸ planned).symm
    · rfl
  · exact pending.symm
  · exact current.symm
  · rfl

theorem Untouched.handed (h : q.Untouched) (hq : q.Consistent) {command : Command}
    (hm : Handed q now command m) : m.Untouched := by
  cases hm with
  | admitted s => exact h.admitted s now
  | awaited worker current => exact h
  | closed found ok =>
    have hend := Job.ended_of_finish ok
    exact (h.closed hq found hend).evict.reposition (hq.closed found hend).pending_nodup

theorem Prepared.untouched_dispatched (h : q.Prepared) (untouched : q.Untouched)
    {notices : List Notice} (hd : Dispatched q now r notices) : r.Untouched := by
  cases hd with
  | idle _ | left => exact untouched
  | delivered current pending found queued planned =>
    exact untouched.served h.toConsistent current pending _
  | returned current pending found queued planned =>
    exact (untouched.recreated _ now).of_keeps
      (h.keeps_returned untouched current pending found planned now)

theorem Settled.untouched_step (h : q.Settled) (untouched : q.Untouched) {e : Event}
    (fresh : q.Fresh e.command) : (q.step e.command e.now e.reached).1.Untouched := by
  cases hm : q.handed e.command e.now with
  | none =>
    rw [(step_of_not_handed hm e.reached).1]
    exact untouched.kept h.toConsistent e.command
  | some m =>
    rw [(step_of_handed hm e.reached).1]
    have hp := h.handed fresh hm
    exact hp.untouched_dispatched (untouched.handed h.toConsistent (handed_cases hm))
      (hp.dispatched e.now e.reached)

theorem untouched_history (retained : Nat) (events : List Event) (fresh : FreshIds events) :
    (history retained events).queue.Untouched := by
  induction events using List.reverseRecOn with
  | nil => exact Untouched.empty retained
  | append_singleton events e ih =>
    have hs := sourced_history retained events fresh.of_snoc
    rw [history_snoc]
    exact hs.settled.untouched_step (ih fresh.of_snoc) (hs.fresh fresh)

/-! ### Refusals -/

/-- An end is refused if the job is not known, or if its status does not allow the end. -/
theorem finished_error_mem_iff {outcome : JobOutcome} {reached : Bool} {error : QueueError} :
    .finished (.error error) ∈ (q.finish id outcome now reached).2 ↔
      (q.jobs.find? id = none ∧ error = .jobNotFound id) ∨
      ∃ job, q.jobs.find? id = some job ∧ job.status.canBecome outcome.status = false ∧
        error = .refused (.transition job.status outcome.status) := by
  cases hj : q.jobs.find? id with
  | none => simp [finish, hj]
  | some job =>
    cases hf : job.finish outcome now with
    | error r =>
      obtain ⟨hstatus, rfl⟩ := Job.finish_error_iff.1 hf
      simp [finish, hj, hf, hstatus]
    | ok ended =>
      have hallowed : job.status.canBecome outcome.status = true := by
        by_contra hnot
        have herror : job.finish outcome now = .error _ :=
          Job.finish_error_iff.2 ⟨Bool.eq_false_iff.2 hnot, rfl⟩
        cases hf.symm.trans herror
      constructor
      · intro hmem
        simp only [finish, hj, hf] at hmem
        rcases List.mem_append.1 hmem with hmem | hmem
        · obtain ⟨_, _, hn⟩ := exists_of_mem_dispatch hmem
          cases hn
        · cases List.mem_singleton.1 hmem
      · rintro (⟨hnone, _⟩ | ⟨other, hother, hnot, _⟩)
        · cases hnone
        · cases hother
          rw [hallowed] at hnot
          cases hnot

theorem finish_of_refused {outcome : JobOutcome} {reached : Bool} {error : QueueError}
    (h : .finished (.error error) ∈ (q.finish id outcome now reached).2) :
    (q.finish id outcome now reached).1 = q := by
  rcases finished_error_mem_iff.1 h with ⟨hnone, _⟩ | ⟨job, hj, hstatus, _⟩
  · simp only [finish, hnone]
  · simp only [finish, hj, Job.finish_error_iff.2 ⟨hstatus, rfl⟩]

theorem claim_of_busy {worker : Nat} {reached : Bool}
    (h : .answered worker (.error (.busy id)) ∈ (q.claim worker now reached).2) :
    q.current = some id ∧ (q.claim worker now reached).1 = q := by
  cases hc : q.current with
  | some other =>
    rw [claim_of_current hc] at h ⊢
    cases List.mem_singleton.1 h
    exact ⟨rfl, rfl⟩
  | none =>
    rw [claim_of_idle hc] at h
    rcases List.mem_append.1 h with hmem | hmem
    · unfold displaced at hmem
      split at hmem
      · cases List.mem_singleton.1 hmem
      · cases hmem
    · obtain ⟨_, _, hn⟩ := exists_of_mem_dispatch hmem
      cases hn

theorem keeps_update (u : JobUpdate)
    (h : ∀ j, q.jobs.find? id = some j → j.status ≠ .running) : q.Keeps (q.update id u) := by
  refine { Keeps.refl q with jobs := fun other => ?_ }
  rw [find?_update]
  split
  · next ho =>
    subst ho
    cases hj : q.jobs.find? id with
    | none => rfl
    | some j => exact congrArg some (Job.updated_of_not_running (h j hj) u)
  · rfl

end

/-- The commands that a queue turns down. -/
inductive Refused (q : Queue) (e : Event) : Prop
  | finish {id : String} {outcome : JobOutcome} {error : QueueError}
      (command : e.command = .finish id outcome)
      (told : .finished (.error error) ∈ (q.step e.command e.now e.reached).2)
  | update {id : String} {u : JobUpdate} (command : e.command = .update id u)
      (idle : ∀ j, q.jobs.find? id = some j → j.status ≠ .running)
  | claim {worker : Nat} {id : String} (command : e.command = .claim worker)
      (told : .answered worker (.error (.busy id)) ∈ (q.step e.command e.now e.reached).2)

variable {q : Queue} {e : Event}

theorem Refused.keeps (h : q.Refused e) : q.Keeps (q.step e.command e.now e.reached).1 := by
  cases h with
  | finish command told =>
    rw [command] at told ⊢
    change q.Keeps (q.finish _ _ _ _).1
    rw [finish_of_refused told]
    exact .refl q
  | update command idle =>
    rw [command]
    exact keeps_update _ idle
  | claim command told =>
    rw [command] at told ⊢
    change q.Keeps (q.claim _ _ _).1
    rw [(claim_of_busy told).2]
    exact .refl q

/-- A claim that is answered after the worker has vanished. -/
theorem Settled.claim_in_vain (h : q.Settled) (untouched : q.Untouched) {id : String}
    {rest : List String} (current : q.current = none) (pending : q.pending = id :: rest)
    (worker : Nat) (now : Instant) :
    (q.claim worker now false).2 = [] ∧
      (q.recreated id now).Keeps (q.claim worker now false).1 := by
  have hw : q.waiting = none := by
    cases hw : q.waiting with
    | none => rfl
    | some w => cases pending.symm.trans (h.pending_of_waiting (by simp [hw]))
  have hp := h.awaited current worker
  obtain ⟨s, job, rfl, found, queued, planned, hd⟩ := hp.dispatch_of_pending rfl pending now
  rw [claim_of_idle current, hd false, displaced, hw]
  have hkeeps := hp.keeps_returned untouched current pending found planned now
  exact ⟨rfl, hkeeps.jobs, hkeeps.plans, hkeeps.pending, hkeeps.current, hkeeps.finished⟩

/-- A submission for which a worker is answered that has waited and then vanished. -/
theorem Settled.enqueue_in_vain (h : q.Settled) (untouched : q.Untouched) {s : Submission}
    (fresh : q.jobs.find? s.id = none) {worker : Nat} (waiting : q.waiting = some ⟨worker, true⟩)
    (now : Instant) : (q.admitted s now).Keeps (q.enqueue s now false).1 := by
  have hp := h.admitted fresh now
  have hpending : (q.admitted s now).pending = [s.id] := by
    simp [Queue.admitted, h.pending_of_waiting (by simp [waiting])]
  have hcurrent : (q.admitted s now).current = none := h.current_of_waiting (by simp [waiting])
  obtain ⟨t, job, ht, found, queued, planned, hd⟩ := hp.dispatch_of_pending waiting hpending now
  rw [← ht] at hpending
  have hkeeps := hp.keeps_returned (untouched.admitted s now) hcurrent hpending found planned now
  have hstep : (q.enqueue s now false).1 =
      ((q.admitted s now).served t [] (job.started now)).putBack t now := by
    have hhanded : q.handed (.enqueue s) now = some (q.admitted s now) := rfl
    have h := (step_of_handed hhanded false).1
    rw [hd false] at h
    exact h
  rw [hstep]
  refine (keeps_recreated ?_).trans hkeeps
  intro j hj
  simp only [Queue.admitted, ht, Table.find?_insert, if_true, Option.some.injEq] at hj
  exact hj ▸ rfl

/-- After every history a command that is refused changes nothing. Where no id is repeated, a claim
whose worker has vanished before it is answered changes nothing either, but that the job at the head
of the line has a new time of creation; and a submission for a worker that waited and vanished makes
what it makes with nobody there. -/
theorem keeps_of_history (retained : Nat) (events : List Event) :
    (∀ e, (history retained events).queue.Refused e →
      (history retained events).queue.Keeps (history retained (events ++ [e])).queue) ∧
    (FreshIds events → ∀ worker now id rest, (history retained events).queue.current = none →
      (history retained events).queue.pending = id :: rest →
      ((history retained events).queue.step (.claim worker) now false).2 = [] ∧
      ((history retained events).queue.recreated id now).Keeps
        (history retained (events ++ [⟨.claim worker, now, false⟩])).queue) ∧
    ∀ s worker now, FreshIds (events ++ [⟨.enqueue s, now, false⟩]) →
      (history retained events).queue.waiting = some ⟨worker, true⟩ →
      ((history retained events).queue.admitted s now).Keeps
        (history retained (events ++ [⟨.enqueue s, now, false⟩])).queue := by
  refine ⟨fun e he => ?_, fun fresh worker now id rest current pending => ?_,
    fun s worker now fresh waiting => ?_⟩
  · rw [history_snoc]
    exact he.keeps
  · have hs := sourced_history retained events fresh
    have hu := untouched_history retained events fresh
    rw [history_snoc]
    exact hs.settled.claim_in_vain hu current pending worker now
  · have hs := sourced_history retained events fresh.of_snoc
    have hu := untouched_history retained events fresh.of_snoc
    rw [history_snoc]
    exact hs.settled.enqueue_in_vain hu (hs.fresh fresh) waiting now

/-- A claim while a job runs, a claim in vain for the only job, and a job submitted in vain. -/
theorem keeps_of_threeJobs :
    (history 1 threeJobs).queue.Keeps
        (history 1 (threeJobs ++ [⟨.claim 3, default, true⟩])).queue ∧
      ((history 1 (threeJobs.take 1)).queue.recreated "a" ⟨1, 0, 0⟩).Keeps
        (history 1 (threeJobs.take 1 ++ [⟨.claim 1, ⟨1, 0, 0⟩, false⟩])).queue ∧
      ((history 1 [⟨.claim 1, default, true⟩]).queue.admitted ⟨"a", barePlan "one", none⟩
          default).Keeps
        (history 1 ([⟨.claim 1, default, true⟩] ++
          [⟨.enqueue ⟨"a", barePlan "one", none⟩, default, false⟩])).queue := by
  have hbusy : (history 1 threeJobs).queue.Refused ⟨.claim 3, default, true⟩ :=
    .claim rfl (show Notice.answered 3 (.error (.busy "b")) ∈ _ from List.mem_cons_self)
  exact ⟨(keeps_of_history 1 threeJobs).1 _ hbusy,
    ((keeps_of_history 1 (threeJobs.take 1)).2.1 (by decide) 1 ⟨1, 0, 0⟩ "a" []
      (by decide) (by decide)).2,
    (keeps_of_history 1 [⟨.claim 1, default, true⟩]).2.2 _ 1 default (by decide) (by decide)⟩

end Queue

end RenderGateway
