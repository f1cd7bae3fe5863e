import RenderGateway.Proofs.Encoder.Tails
import RenderGateway.Proofs.Queue.Limited

/-!
# What a job is told of a run

A job is told of the events of a run, but not of progress that does not exceed what it was told of
before. The progress of the record is never less than that, so what is left out would have changed
nothing: the queue is the same as if it had been told of every event. The record then has the
greatest progress of all and the last lines of the log.
-/

namespace RenderGateway

namespace Progress

theorem percent_le (p : Progress) (total : Int64) : p.percent total ≤ 99 := by
  have hfloor (x : Binary64) : (x.floorWithin 0 99).toNat ≤ 99 := by
    unfold Binary64.floorWithin
    split <;> omega
  unfold percent
  split
  · exact UInt8.zero_le
  · refine UInt8.le_iff_toNat_le.2 ?_
    rw [UInt8.toNat_ofNat_of_lt' (lt_of_le_of_lt (hfloor _) (by decide))]
    exact hfloor _

/-! ### The greatest of percentages -/

theorem max_min_of_le {a percent : UInt8} (h : percent ≤ a) : max a (min percent 99) = a := by
  have hle := UInt8.le_iff_toNat_le.1 h
  rw [← UInt8.toNat_inj, UInt8.toNat_max, UInt8.toNat_min]
  omega

theorem max_min_of_le_limit {a percent : UInt8} (h : percent ≤ 99) :
    max a (min percent 99) = max a percent := by
  have hle := UInt8.le_iff_toNat_le.1 h
  rw [← UInt8.toNat_inj, UInt8.toNat_max, UInt8.toNat_max, UInt8.toNat_min, Nat.min_eq_left hle]

theorem le_max_right (a b : UInt8) : b ≤ max a b := by
  rw [UInt8.le_iff_toNat_le, UInt8.toNat_max]
  omega

theorem le_max_left (a b : UInt8) : a ≤ max a b := by
  rw [UInt8.le_iff_toNat_le, UInt8.toNat_max]
  omega

theorem foldl_max_mem (a : UInt8) (percents : List UInt8) :
    percents.foldl max a ∈ a :: percents := by
  induction percents generalizing a with
  | nil => exact List.mem_cons_self
  | cons percent percents ih =>
    rw [List.foldl_cons]
    rcases List.mem_cons.1 (ih (max a percent)) with hfirst | hrest
    · rw [hfirst]
      change (if a ≤ percent then percent else a) ∈ _
      split
      · exact List.mem_cons_of_mem _ List.mem_cons_self
      · exact List.mem_cons_self
    · exact List.mem_cons_of_mem _ (List.mem_cons_of_mem _ hrest)

theorem start_le_foldl_max (a : UInt8) (percents : List UInt8) : a ≤ percents.foldl max a := by
  induction percents generalizing a with
  | nil => exact UInt8.le_refl a
  | cons percent percents ih => exact UInt8.le_trans (le_max_left a percent) (ih _)

theorem le_foldl_max {a percent : UInt8} {percents : List UInt8} (h : percent ∈ a :: percents) :
    percent ≤ percents.foldl max a := by
  induction percents generalizing a with
  | nil => exact List.mem_singleton.1 h ▸ UInt8.le_refl _
  | cons first percents ih =>
    rcases List.mem_cons.1 h with rfl | h
    · exact start_le_foldl_max _ _
    · rcases List.mem_cons.1 h with rfl | h
      · exact UInt8.le_trans (le_max_right a _) (start_le_foldl_max _ _)
      · exact ih (List.mem_cons_of_mem _ h)

end Progress

namespace RunEvent

/-- The change that an event makes by itself. -/
def update (total : Int64) (keep : Nat) : RunEvent → JobUpdate
  | progress p => .progress (p.percent total)
  | log line => .logs [line] keep

def percent? (total : Int64) : RunEvent → Option UInt8
  | progress p => some (p.percent total)
  | log _ => none

end RunEvent

namespace Job

variable {j : Job} {total : Int64} {keep : Nat}

theorem foldl_updated_of_not_running (h : j.status ≠ .running) (us : List JobUpdate) :
    us.foldl updated j = j := by
  induction us with
  | nil => rfl
  | cons u us ih => rw [List.foldl_cons, updated_of_not_running h, ih]

/-! ### What is left out -/

/-- Progress that the record has already changes nothing. -/
theorem updated_progress_of_le (h : j.status = .running) {percent : UInt8}
    (hle : percent ≤ j.progress) : j.updated (.progress percent) = j := by
  rw [updated_of_running h, JobUpdate.change, Progress.max_min_of_le hle]

theorem updated_progress (h : j.status = .running) {percent : UInt8} (hle : percent ≤ 99) :
    j.updated (.progress percent) = { j with progress := max j.progress percent } := by
  rw [updated_of_running h, JobUpdate.change, Progress.max_min_of_le_limit hle]

/-- The record of a running job has at least the progress that was sent, so it stays the same
without what is left out. -/
theorem foldl_eventUpdates (h : j.status = .running) {sent : UInt8} (hsent : sent ≤ j.progress)
    (run : List RunEvent) :
    (Work.eventUpdates total keep sent run).foldl updated j =
      (run.map (RunEvent.update total keep)).foldl updated j := by
  induction run generalizing j sent with
  | nil => rfl
  | cons e run ih =>
    cases e with
    | log line =>
      have hkept : (j.updated (.logs [line] keep)).progress = j.progress := by
        rw [updated_of_running h]
        rfl
      rw [Work.eventUpdates, List.map_cons, List.foldl_cons, List.foldl_cons]
      exact ih ((updated_frame j _).2.1.trans h) (hkept.symm ▸ hsent)
    | progress p =>
      rw [Work.eventUpdates, List.map_cons, List.foldl_cons, RunEvent.update]
      split
      · next hold =>
        rw [updated_progress_of_le h (UInt8.le_trans hold hsent)]
        exact ih h hsent
      · have htold : p.percent total ≤ (j.updated (.progress (p.percent total))).progress := by
          rw [updated_progress h (p.percent_le total)]
          exact Progress.le_max_right _ _
        rw [List.foldl_cons]
        exact ih ((updated_frame j _).2.1.trans h) htold

/-! ### What the record says in the end -/

/-- A log after lines that came one by one; without any it is not cut. -/
def logAfter (keep : Nat) (tail lines : List String) : List String :=
  if lines = [] then tail else lastOf keep (tail ++ lines)

theorem logAfter_logAfter (keep : Nat) (tail : List String) (line : String)
    (lines : List String) :
    logAfter keep (lastOf keep (tail ++ [line])) lines = logAfter keep tail (line :: lines) := by
  unfold logAfter
  split
  · next hnone => rw [hnone, if_neg (by simp)]
  · rw [if_neg (by simp), lastOf_append_lastOf, List.append_assoc, List.singleton_append]

/-- The record of a running job that was told of every event. -/
theorem foldl_updated_run (h : j.status = .running) (run : List RunEvent) :
    (run.map (RunEvent.update total keep)).foldl updated j =
      { j with
        progress := (run.filterMap (RunEvent.percent? total)).foldl max j.progress
        logsTail := logAfter keep j.logsTail (run.filterMap RunEvent.logLine?) } := by
  induction run generalizing j with
  | nil => rfl
  | cons e run ih =>
    rw [List.map_cons, List.foldl_cons, ih ((updated_frame j _).2.1.trans h)]
    cases e with
    | log line =>
      rw [RunEvent.update, updated_of_running h, JobUpdate.change]
      dsimp only
      rw [logAfter_logAfter]
      rfl
    | progress p =>
      rw [RunEvent.update, updated_progress h (p.percent_le total)]
      rfl

/-- What a run leaves of the record of a running job: its progress is the greatest that there was,
its log goes on with the lines of the run, and nothing else is changed. -/
structure Observes (total : Int64) (keep : Nat) (run : List RunEvent) (j k : Job) : Prop where
  frame : k = { j with progress := k.progress, logsTail := k.logsTail }
  progress_mem : k.progress ∈ j.progress :: run.filterMap (RunEvent.percent? total)
  le_progress : ∀ percent ∈ j.progress :: run.filterMap (RunEvent.percent? total),
    percent ≤ k.progress
  progress_le : j.progress ≤ 99 → k.progress ≤ 99
  logsTail_eq : k.logsTail = logAfter keep j.logsTail (run.filterMap RunEvent.logLine?)

theorem percent_le_of_mem {run : List RunEvent} {percent : UInt8}
    (h : percent ∈ run.filterMap (RunEvent.percent? total)) : percent ≤ 99 := by
  obtain ⟨e, -, he⟩ := List.mem_filterMap.1 h
  cases e with
  | log line => cases he
  | progress p =>
    cases he
    exact p.percent_le total

theorem observes_run (h : j.status = .running) (run : List RunEvent) :
    j.Observes total keep run ((run.map (RunEvent.update total keep)).foldl updated j) := by
  rw [foldl_updated_run h]
  have hmem := Progress.foldl_max_mem j.progress (run.filterMap (RunEvent.percent? total))
  refine ⟨rfl, hmem, fun percent hpercent => Progress.le_foldl_max hpercent, fun hle => ?_, rfl⟩
  rcases List.mem_cons.1 hmem with hfirst | hrun
  · exact UInt8.le_trans (UInt8.le_of_eq hfirst) hle
  · exact percent_le_of_mem hrun

end Job

/-! ### The queue -/

theorem Table.modify_modify {α : Type} (t : Table α) (key : String) (f g : α → α) :
    (t.modify key f).modify key g = t.modify key fun v => g (f v) := by
  simp only [modify, List.map_map]
  refine List.map_congr_left fun entry _ => ?_
  by_cases h : entry.1 = key <;> simp [h]

theorem Table.modify_self {α : Type} (t : Table α) (key : String) :
    t.modify key (fun v => v) = t := by
  simp [modify]

/-- Changes of one job come to a change of its record. -/
theorem Queue.foldl_update (q : Queue) (id : String) (us : List JobUpdate) :
    us.foldl (fun q u => q.update id u) q =
      { q with jobs := q.jobs.modify id fun j => us.foldl Job.updated j } := by
  induction us generalizing q with
  | nil => simp only [List.foldl_nil, Table.modify_self]
  | cons u us ih =>
    rw [List.foldl_cons, ih]
    simp only [Queue.update, Table.modify_modify]
    rfl

namespace Work

theorem lines_updates (total : Int64) (keep : Nat) (run : List RunEvent) :
    (run.map (RunEvent.update total keep)).flatMap JobUpdate.lines =
      run.filterMap RunEvent.logLine? := by
  induction run with
  | nil => rfl
  | cons e run ih =>
    cases e with
    | log line => exact congrArg (line :: ·) ih
    | progress p => exact ih

theorem foldl_eventUpdates_eq (total : Int64) (keep : Nat) (run : List RunEvent) (j : Job) :
    (eventUpdates total keep 0 run).foldl Job.updated j =
      (run.map (RunEvent.update total keep)).foldl Job.updated j := by
  by_cases h : j.status = .running
  · exact Job.foldl_eventUpdates h UInt8.zero_le run
  · rw [Job.foldl_updated_of_not_running h, Job.foldl_updated_of_not_running h]

/-- It makes no difference to a queue, or to any record, that a job is not told of progress that
does not exceed what it was told of before. Both ways the log gets the lines of the run in their
order, and the record of a running job has the greatest of the progress that it had and the
percentages of the run. No job that runs in a queue comes to the end of its progress so. -/
theorem forwards_run (q : Queue) (id : String) (total : Int64) (keep : Nat)
    (run : List RunEvent) :
    (∀ j : Job, (eventUpdates total keep 0 run).foldl Job.updated j =
      (run.map (RunEvent.update total keep)).foldl Job.updated j) ∧
    (eventUpdates total keep 0 run).foldl (fun q u => q.update id u) q =
      (run.map (RunEvent.update total keep)).foldl (fun q u => q.update id u) q ∧
    (eventUpdates total keep 0 run).flatMap JobUpdate.lines = run.filterMap RunEvent.logLine? ∧
    (run.map (RunEvent.update total keep)).flatMap JobUpdate.lines =
      run.filterMap RunEvent.logLine? ∧
    ∀ j, q.jobs.find? id = some j → j.status = .running →
      ∃ k, ((eventUpdates total keep 0 run).foldl (fun q u => q.update id u) q).jobs.find? id =
          some k ∧
        j.Observes total keep run k ∧
        ∀ retained events, q = (Queue.history retained events).queue → k.progress ≤ 99 := by
  have hrecords := foldl_eventUpdates_eq total keep run
  have hqueue : (eventUpdates total keep 0 run).foldl (fun q u => q.update id u) q =
      (run.map (RunEvent.update total keep)).foldl (fun q u => q.update id u) q := by
    rw [Queue.foldl_update, Queue.foldl_update, funext hrecords]
  refine ⟨hrecords, hqueue, lines_eventUpdates total keep 0 run, lines_updates total keep run,
    fun j hj running => ?_⟩
  have hobserves : j.Observes total keep run _ := Job.observes_run running run
  refine ⟨_, ?_, hobserves, ?_⟩
  · rw [hqueue, Queue.foldl_update, Table.find?_modify, if_pos rfl, hj]
    rfl
  · rintro retained events rfl
    have hlimited := Queue.limited_history retained events id j hj
    exact hobserves.progress_le (hlimited.progress_le_of_alive (.inr running))

/-- A report of an output of the given duration in milliseconds. -/
def reportAt (ms : Int64) : RunEvent := .progress { Progress.initial with outTime := ms }

/-- Progress goes back, comes twice and exceeds the total, with two lines in between. -/
def unsteadyRun : List RunEvent :=
  [reportAt 500, .log "one", reportAt 300, reportAt 500, reportAt 2000, .log "two", reportAt 990]

theorem forwards_unsteadyRun :
    eventUpdates 1000 2 0 unsteadyRun =
      [.progress 50, .logs ["one"] 2, .progress 99, .logs ["two"] 2] ∧
    ∃ j, (Queue.history 1 Queue.threeJobs).queue.jobs.find? "b" = some j ∧ j.status = .running ∧
      ∃ k, j.Observes 1000 2 unsteadyRun k ∧ k.progress ≤ 99 := by
  obtain ⟨j, hj, running⟩ : ∃ j,
      (Queue.history 1 Queue.threeJobs).queue.jobs.find? "b" = some j ∧ j.status = .running :=
    ⟨_, rfl, rfl⟩
  obtain ⟨-, -, -, -, hobserves⟩ :=
    forwards_run (Queue.history 1 Queue.threeJobs).queue "b" 1000 2 unsteadyRun
  obtain ⟨k, -, hk, hlimit⟩ := hobserves j hj running
  exact ⟨by decide +kernel, j, hj, running, k, hk, hlimit 1 Queue.threeJobs rfl⟩

end Work

end RenderGateway
