import RenderGateway.Proofs.Job.Outline
import RenderGateway.Proofs.Queue.Dispatch
import RenderGateway.Proofs.Queue.Step

/-!
# The queue without diagnostics

The outline of a queue has the outlines of its jobs. The end of a job gives the outline that it
gives of the outline alone, and so do the updates that are not of the log; the log updates do not
show in it.
-/

namespace RenderGateway

namespace Table

variable {α β : Type}

/-- A table with all its values changed. -/
def mapValues (f : α → β) (t : Table α) : Table β := t.map fun (k, v) => (k, f v)

variable (f : α → β) (t : Table α)

theorem find?_mapValues (key : String) : (mapValues f t).find? key = (t.find? key).map f := by
  induction t with
  | nil => rfl
  | cons entry t ih =>
    obtain ⟨k, v⟩ := entry
    rw [mapValues, List.map_cons, find?_cons, find?_cons]
    split
    · rfl
    · exact ih

theorem mapValues_insert (key : String) (value : α) :
    mapValues f (insert key value t) = insert key (f value) (mapValues f t) := by
  induction t with
  | nil => rfl
  | cons entry t ih =>
    obtain ⟨k, v⟩ := entry
    simp only [mapValues] at ih
    by_cases h : k = key <;> simp [mapValues, insert, h, ih]

theorem mapValues_erase (key : String) :
    mapValues f (t.erase key) = (mapValues f t).erase key := by
  simp only [mapValues, erase, List.filter_map, Function.comp_def]

theorem mapValues_modify {f : α → β} {change : α → α} {change' : β → β}
    (h : ∀ v, f (change v) = change' (f v)) (key : String) :
    mapValues f (t.modify key change) = (mapValues f t).modify key change' := by
  simp only [mapValues, modify, List.map_map]
  refine List.map_congr_left fun entry _ => ?_
  by_cases hk : entry.1 = key <;> simp [hk, h]

end Table

def ClaimedJob.outline (c : ClaimedJob) : ClaimedJob := { c with job := c.job.outline }

namespace Queue

/-- A queue with the outlines of its jobs. -/
def outline (q : Queue) : Queue := { q with jobs := Table.mapValues Job.outline q.jobs }

def Notice.outline : Notice → Notice
  | .queued j => .queued j.outline
  | .finished result => .finished (result.map Job.outline)
  | .answered worker result => .answered worker (result.map ClaimedJob.outline)

variable (q : Queue)

theorem outline_reposition : q.reposition.outline = q.outline.reposition := by
  have hfold : ∀ (places : List (String × Nat)) (jobs : Table Job),
      Table.mapValues Job.outline (places.foldl (fun jobs place =>
        jobs.modify place.1 fun j => { j with queuePosition := q.positionOf place.2 }) jobs) =
      places.foldl (fun jobs place =>
        jobs.modify place.1 fun j => { j with queuePosition := q.positionOf place.2 })
        (Table.mapValues Job.outline jobs) := by
    intro places
    induction places with
    | nil => exact fun _ => rfl
    | cons place places ih =>
      intro jobs
      have hmodify : Table.mapValues Job.outline
            (jobs.modify place.1 fun j => { j with queuePosition := q.positionOf place.2 }) =
          (Table.mapValues Job.outline jobs).modify place.1 fun j =>
            { j with queuePosition := q.positionOf place.2 } :=
        Table.mapValues_modify jobs (fun j => j.outline_reposition _) place.1
      rw [List.foldl_cons, List.foldl_cons, ih, hmodify]
  exact congrArg (fun jobs => { q with jobs }) (hfold _ _)

theorem outline_evict : q.evict.outline = q.outline.evict := by
  have hfold : ∀ (ids : List String) (jobs : Table Job),
      Table.mapValues Job.outline (ids.foldl Table.erase jobs) =
        ids.foldl Table.erase (Table.mapValues Job.outline jobs) := by
    intro ids
    induction ids with
    | nil => exact fun _ => rfl
    | cons id ids ih =>
      intro jobs
      rw [List.foldl_cons, List.foldl_cons, ih, Table.mapValues_erase]
  exact congrArg (fun jobs => { q.evict with jobs }) (hfold _ _)

theorem outline_running (s : Submission) (started : Job) :
    (q.running s started).outline = q.outline.running s started.outline := by
  rw [running, outline_reposition]
  refine congrArg reposition ?_
  exact congrArg (fun jobs => ({ q with jobs, current := some s.id } : Queue))
    (Table.mapValues_insert _ _ _ _)

theorem outline_putBack (s : Submission) (now : Instant) :
    (q.putBack s now).outline = q.outline.putBack s now := by
  rw [putBack, outline_reposition]
  refine congrArg reposition ?_
  exact congrArg (fun jobs => ({ q with
    jobs, plans := Table.insert s.id (s.plan, s.outputName) q.plans,
    pending := s.id :: q.pending, current := none } : Queue)) (Table.mapValues_insert _ _ _ _)

/-- Whether a job can start does not depend on its diagnostics. -/
theorem takeNext_outline (now : Instant) (ids : List String) :
    q.outline.takeNext now ids =
      ((q.takeNext now ids).1.outline,
        (q.takeNext now ids).2.map fun (s, started) => (s, started.outline)) := by
  induction ids generalizing q with
  | nil => rfl
  | cons id ids ih =>
    have hjob : q.outline.jobs.find? id = (q.jobs.find? id).map Job.outline :=
      Table.find?_mapValues _ _ _
    have hplan : q.outline.plans.find? id = q.plans.find? id := rfl
    simp only [takeNext, hjob, hplan]
    cases q.jobs.find? id with
    | none => exact ih { q with plans := q.plans.erase id }
    | some job =>
      cases q.plans.find? id with
      | none => exact ih { q with plans := q.plans.erase id }
      | some plan =>
        have hstart := job.map_outline_start now
        rw [Option.map_some]
        dsimp only
        rw [← hstart]
        cases job.start now with
        | error r => exact ih { q with plans := q.plans.erase id }
        | ok started => rfl

theorem dispatch_outline (now : Instant) (reached : Bool) :
    q.outline.dispatch now reached =
      ((q.dispatch now reached).1.outline, (q.dispatch now reached).2.map Notice.outline) := by
  cases hw : q.waiting with
  | none =>
    rw [dispatch_of_not_waiting now reached hw,
      dispatch_of_not_waiting (q := q.outline) now reached hw]
    rfl
  | some waiting =>
    cases hc : q.current with
    | some id =>
      rw [dispatch_of_busy now reached hc, dispatch_of_busy (q := q.outline) now reached hc]
      rfl
    | none =>
      obtain ⟨worker, present⟩ := waiting
      cases present with
      | false =>
        rw [dispatch_of_left now reached hc hw,
          dispatch_of_left (q := q.outline) now reached hc hw]
        rfl
      | true =>
        rw [dispatch_of_waiting now reached hc hw rfl,
          dispatch_of_waiting (q := q.outline) now reached hc hw
            (takeNext_outline { q with waiting := none } now q.pending)]
        rcases ({ q with waiting := none } : Queue).takeNext now q.pending with ⟨rest, next⟩
        cases next with
        | none => rfl
        | some served =>
          obtain ⟨s, started⟩ := served
          cases reached with
          | true => exact Prod.ext (outline_running rest s started).symm rfl
          | false =>
            refine Prod.ext ?_ rfl
            change _ = ((rest.running s started).putBack s now).outline
            rw [outline_putBack, outline_running]
            rfl

theorem outline_closed (id : String) (job ended : Job) :
    (q.closed id job ended).outline = q.outline.closed id job.outline ended.outline :=
  congrArg (fun jobs => { q.closed id job ended with jobs }) (Table.mapValues_insert _ _ _ _)

/-- The end of a job and what is told about it, but for the diagnostics. -/
theorem finish_outline (id : String) (outcome : JobOutcome) (now : Instant) (reached : Bool) :
    q.outline.finish id outcome.outline now reached =
      ((q.finish id outcome now reached).1.outline,
        (q.finish id outcome now reached).2.map Notice.outline) := by
  have found : q.outline.jobs.find? id = (q.jobs.find? id).map Job.outline :=
    Table.find?_mapValues _ _ _
  cases hj : q.jobs.find? id with
  | none =>
    rw [finish, finish, found, hj]
    rfl
  | some job =>
    rw [hj] at found
    have ended := job.map_outline_finish outcome now
    cases hf : job.finish outcome now with
    | error r =>
      rw [hf] at ended
      rw [finish, finish, found, hj, Option.map_some]
      simp only [hf, ← ended]
      rfl
    | ok k =>
      rw [hf] at ended
      rw [finish_of_ended hj hf, finish_of_ended found ended.symm, ← outline_closed,
        ← outline_evict, ← outline_reposition, dispatch_outline, List.map_append]
      rfl

/-- What is told to the one who ends a job. -/
theorem findSome?_finished_outline (notices : List Notice) :
    (notices.map Notice.outline).findSome? Notice.finished? =
      (notices.findSome? Notice.finished?).map (Except.map Job.outline) := by
  induction notices with
  | nil => rfl
  | cons notice notices ih =>
    cases notice with
    | finished result => rfl
    | queued job | answered worker result => exact ih

theorem update_logs_outline (id : String) (lines : List String) (keep : Nat) :
    (q.update id (.logs lines keep)).outline = q.outline := by
  have hjobs : Table.mapValues Job.outline
        (q.jobs.modify id fun j => j.updated (.logs lines keep)) =
      (Table.mapValues Job.outline q.jobs).modify id fun j => j :=
    Table.mapValues_modify _ (fun j => j.outline_updated_logs lines keep) id
  refine congrArg (fun jobs => { q with jobs }) (hjobs.trans ?_)
  simp [Table.modify]

theorem update_outline (id : String) {u : JobUpdate} (h : u.isLogs = false) :
    (q.update id u).outline = q.outline.update id u := by
  have hjobs : Table.mapValues Job.outline (q.jobs.modify id fun j => j.updated u) =
      (Table.mapValues Job.outline q.jobs).modify id fun j => j.updated u :=
    Table.mapValues_modify _ (fun j => j.outline_updated h) id
  exact congrArg (fun jobs => { q with jobs }) hjobs

/-- Only the changes that are not of the log show in the outline. -/
theorem outline_foldl_update (id : String) (us : List JobUpdate) :
    (us.foldl (fun q u => q.update id u) q).outline =
      (JobUpdate.substantial us).foldl (fun q u => q.update id u) q.outline :=
  JobUpdate.foldl_substantial (fun q lines keep => q.update_logs_outline id lines keep)
    (fun q _ h => q.update_outline id h) us q

end Queue

end RenderGateway
