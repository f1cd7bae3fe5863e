import RenderGateway.Proofs.Encoder.Snapshots
import RenderGateway.Proofs.Job.Coherence
import RenderGateway.Proofs.Job.RoundTrip
import RenderGateway.Proofs.Queue.Retention
import RenderGateway.Render.Work

/-!
# The last lines of a log

The log of a job takes lines in batches and is cut to its room after each of them. The tail of a run
takes them one by one, and its first line makes place for the new one where there is no room. Both
hold the last of all lines, so they are the same if the events of the run are all that the log is
told of.
-/

namespace RenderGateway

/-- The lines that a change adds to the log. -/
def JobUpdate.lines : JobUpdate → List String
  | logs lines _ => lines
  | route _ | progress _ => []

/-- A change that cuts the log to a room, if it adds to it. -/
def JobUpdate.KeepsTo (room : Nat) : JobUpdate → Prop
  | logs _ keep => keep = room
  | route _ | progress _ => True

namespace Job

/-! ### Batches -/

theorem length_lastOf_le (n : Nat) (as : List α) : (lastOf n as).length ≤ n := by
  rw [lastOf, List.length_drop]
  omega

theorem lastOf_of_length_le {n : Nat} {as : List α} (h : as.length ≤ n) : lastOf n as = as := by
  rw [lastOf, Nat.sub_eq_zero_of_le h, List.drop_zero]

variable {j : Job} {u : JobUpdate} {room : Nat}

/-- A running job takes every change. -/
theorem run_update (h : j.status = .running) (u : JobUpdate) :
    (OnJob.perform (.update u)).run j = (.ok (), u.change j) := by
  have hcall : j.call (.update u) = .ok (u.change j) := apply_of_running h u
  rw [OnJob.run_perform, hcall]
  rfl

theorem status_change (u : JobUpdate) (j : Job) : (u.change j).status = j.status := by
  cases u with
  | route | progress | logs => rfl

theorem logsTail_change (hkeep : u.KeepsTo room) (hshort : j.logsTail.length ≤ room) :
    (u.change j).logsTail = lastOf room (j.logsTail ++ u.lines) := by
  cases u with
  | route | progress =>
    rw [JobUpdate.lines, List.append_nil]
    exact (lastOf_of_length_le hshort).symm
  | logs lines keep =>
    have hroom : keep = room := hkeep
    rw [← hroom]
    rfl

/-- A log that is no longer than its room holds the last of its lines and the new ones. -/
theorem logsTail_after {updates : List JobUpdate} (h : j.status = .running)
    (hkeep : ∀ u ∈ updates, u.KeepsTo room) (hshort : j.logsTail.length ≤ room) :
    (j.after (updates.map .update)).status = .running ∧
      (j.after (updates.map .update)).logsTail =
        lastOf room (j.logsTail ++ updates.flatMap JobUpdate.lines) := by
  induction updates generalizing j with
  | nil =>
    rw [List.flatMap_nil, List.append_nil, lastOf_of_length_le hshort]
    exact ⟨h, rfl⟩
  | cons u updates ih =>
    obtain ⟨hu, hupdates⟩ := List.forall_mem_cons.1 hkeep
    have hstep : j.after ((u :: updates).map .update) =
        (u.change j).after (updates.map .update) :=
      congrArg (fun k : Except Refusal Unit × Job => k.2.after (updates.map .update))
        (run_update h u)
    have htail := logsTail_change hu hshort
    have hlength : (u.change j).logsTail.length ≤ room := htail ▸ length_lastOf_le room _
    rw [hstep, List.flatMap_cons, ← List.append_assoc, ← lastOf_append_lastOf, ← htail]
    exact ih ((status_change u j).trans h) hupdates hlength

/-- Lines that are added in batches. -/
def pushes (room : Nat) (batches : List (List String)) : List JobCall :=
  batches.map fun lines => .update (.logs lines room)

/-- The first batch cuts a log that is longer than the room. -/
theorem logsTail_after_pushes {batches : List (List String)} (h : j.status = .running)
    (hshort : batches = [] → j.logsTail.length ≤ room) :
    (j.after (pushes room batches)).status = .running ∧
      (j.after (pushes room batches)).logsTail = lastOf room (j.logsTail ++ batches.flatten) := by
  cases batches with
  | nil =>
    rw [List.flatten_nil, List.append_nil, lastOf_of_length_le (hshort rfl)]
    exact ⟨h, rfl⟩
  | cons lines batches =>
    have hstep : j.after (pushes room (lines :: batches)) =
        ((JobUpdate.logs lines room).change j).after
          ((batches.map fun lines => .logs lines room).map .update) := by
      rw [List.map_map]
      exact congrArg (fun k : Except Refusal Unit × Job => k.2.after (pushes room batches))
        (run_update h (.logs lines room))
    have hlines : (batches.map fun lines => JobUpdate.logs lines room).flatMap JobUpdate.lines =
        batches.flatten := by
      rw [List.flatMap_map]
      exact List.flatMap_id ..
    have hkeep : ∀ u ∈ batches.map fun lines => JobUpdate.logs lines room, u.KeepsTo room := by
      intro u hu
      obtain ⟨lines, -, rfl⟩ := List.mem_map.1 hu
      rfl
    rw [hstep, List.flatten_cons, ← List.append_assoc, ← lastOf_append_lastOf, ← hlines]
    exact logsTail_after h hkeep (length_lastOf_le room _)

end Job

/-! ### The changes that a run makes -/

theorem Work.keepsTo_of_mem_eventUpdates {keep : Nat} (total : Int64) (sent : UInt8)
    (events : List RunEvent) : ∀ u ∈ eventUpdates total keep sent events, u.KeepsTo keep := by
  induction events generalizing sent with
  | nil => exact List.forall_mem_nil _
  | cons e events ih =>
    cases e with
    | log line => exact List.forall_mem_cons.2 ⟨rfl, ih sent⟩
    | progress p =>
      rw [eventUpdates]
      split
      · exact ih sent
      · exact List.forall_mem_cons.2 ⟨trivial, ih _⟩

theorem Work.lines_eventUpdates (total : Int64) (keep : Nat) (sent : UInt8)
    (events : List RunEvent) :
    (eventUpdates total keep sent events).flatMap JobUpdate.lines =
      events.filterMap RunEvent.logLine? := by
  induction events generalizing sent with
  | nil => rfl
  | cons e events ih =>
    cases e with
    | log line => exact congrArg (line :: ·) (ih sent)
    | progress p =>
      rw [eventUpdates]
      split
      · exact ih sent
      · exact ih _

namespace EncoderRun

open Progress (isDiagnostic)

/-- A line without the blanks at its end. -/
def lineText (line : String) : String := String.ofList (Text.trimEnd line.toList)

/-- The lines of the log as they are kept: trimmed on the right, and without the blank ones. -/
def logTexts (lines : List String) : List String :=
  ((lines.filter isDiagnostic).map lineText).filter (· ≠ "")

theorem logTexts_append (lines more : List String) :
    logTexts (lines ++ more) = logTexts lines ++ logTexts more := by
  rw [logTexts, List.filter_append, List.map_append, List.filter_append]
  rfl

namespace Reader

variable {room : Nat} {r : Reader} {line : String}

/-! ### One line -/

/-- The first line goes exactly if the tail with the new one is longer than the room. -/
theorem tail_keep (hroom : 0 < room) (h : r.tail.length ≤ room) (line : String) :
    (r.keep room line).tail = Job.lastOf room (r.tail ++ [line]) := by
  unfold keep Job.lastOf
  rw [List.length_append, List.length_singleton]
  dsimp only
  split
  · next hfull =>
    have hone : r.tail.length + 1 - room = 1 := by omega
    rw [hone, List.drop_append_of_le_length (by omega)]
  · have hnone : r.tail.length + 1 - room = 0 := by omega
    rw [hnone, List.drop_zero]

theorem logTexts_of_isDiagnostic (h : isDiagnostic line = true) :
    logTexts [line] = if lineText line = "" then [] else [lineText line] := by
  rw [logTexts, List.filter_cons_of_pos h]
  split
  · next hblank => simp [hblank]
  · next hblank => simp [hblank]

theorem logTexts_of_not_isDiagnostic (h : isDiagnostic line = false) : logTexts [line] = [] := by
  rw [logTexts, List.filter_cons_of_neg (by simp [h])]
  rfl

/-- A line of the log goes to the tail and is shown, without its blanks at the end, unless nothing
else is in it. -/
theorem read_of_isDiagnostic (room : Nat) (r : Reader) (h : isDiagnostic line = true) :
    r.read room line =
      if lineText line = "" then (r, none)
      else (r.keep room (lineText line), some (.log (lineText line))) := by
  rw [read, Progress.feed_of_isDiagnostic _ h]
  rfl

/-- All other lines leave the tail as it is and are not shown as lines. -/
theorem read_of_not_isDiagnostic (room : Nat) (r : Reader) (h : isDiagnostic line = false) :
    (r.read room line).1.tail = r.tail ∧ (r.read room line).2.bind RunEvent.logLine? = none := by
  unfold read
  rcases hfeed : r.report.feed line with ⟨p, _ | _ | _⟩
  · exact ⟨rfl, rfl⟩
  · exact ⟨rfl, rfl⟩
  · have hlog : (r.report.feed line).2 = .log := by rw [hfeed]
    rw [Progress.feed_log_iff, h] at hlog
    cases hlog

theorem tail_eq (h : r.tail.length ≤ room) : r.tail = Job.lastOf room (r.tail ++ []) := by
  rw [List.append_nil, Job.lastOf_of_length_le h]

theorem tail_read (hroom : 0 < room) (h : r.tail.length ≤ room) (line : String) :
    (r.read room line).1.tail = Job.lastOf room (r.tail ++ logTexts [line]) := by
  cases hline : isDiagnostic line with
  | false =>
    rw [(read_of_not_isDiagnostic room r hline).1, logTexts_of_not_isDiagnostic hline]
    exact tail_eq h
  | true =>
    rw [read_of_isDiagnostic room r hline, logTexts_of_isDiagnostic hline]
    split
    · exact tail_eq h
    · exact tail_keep hroom h _

theorem logLine?_read (room : Nat) (r : Reader) (line : String) :
    (r.read room line).2.toList.filterMap RunEvent.logLine? = logTexts [line] := by
  cases hline : isDiagnostic line with
  | false =>
    have hnone := (read_of_not_isDiagnostic room r hline).2
    rw [logTexts_of_not_isDiagnostic hline]
    cases hevent : (r.read room line).2 with
    | none => rfl
    | some event =>
      rw [hevent, Option.bind_some] at hnone
      simp [hnone]
  | true =>
    rw [read_of_isDiagnostic room r hline, logTexts_of_isDiagnostic hline]
    split
    · rfl
    · rfl

/-! ### All lines -/

/-- The tail is what the log of a job would be that is told of every line. -/
theorem tail_readAll (hroom : 0 < room) (h : r.tail.length ≤ room) (lines : List String) :
    (r.readAll room lines).1.tail = Job.lastOf room (r.tail ++ logTexts lines) := by
  induction lines generalizing r with
  | nil => exact tail_eq h
  | cons line lines ih =>
    have htail := tail_read hroom h line
    have hlength : (r.read room line).1.tail.length ≤ room := htail ▸ Job.length_lastOf_le room _
    have hstep : (r.readAll room (line :: lines)).1 =
        ((r.read room line).1.readAll room lines).1 := rfl
    rw [hstep, ih hlength, htail, Job.lastOf_append_lastOf, List.append_assoc,
      ← logTexts_append]
    rfl

theorem logLines_readAll (room : Nat) (r : Reader) (lines : List String) :
    (r.readAll room lines).2.filterMap RunEvent.logLine? = logTexts lines := by
  induction lines generalizing r with
  | nil => rfl
  | cons line lines ih =>
    have hstep : (r.readAll room (line :: lines)).2 =
        (r.read room line).2.toList ++ ((r.read room line).1.readAll room lines).2 := rfl
    rw [hstep, List.filterMap_append, logLine?_read, ih, ← logTexts_append]
    rfl

end Reader

/-! ### Runs -/

/-- A child that ended by itself. -/
def Fate.IsEnd : Fate → Prop
  | exited _ | killed => True
  | notFound | notStarted _ | timedOut _ | cancelled | lost _ => False

theorem Fate.IsEnd.isRun {fate : Fate} (h : fate.IsEnd) : fate.isRun = true := by
  cases fate with
  | exited | killed => rfl
  | notFound | notStarted | timedOut | cancelled | lost => cases h

/-- The tail that the result of a run holds. -/
def tail? : Except MediaFailure (List String) → Option (List String)
  | .ok tail => some tail
  | .error (.encodingFailed _ tail _) => some tail
  | .error _ => none

/-- What a run shows and holds. It shows every line that it reads, and holds the last of them if it
reads the output to its end; where no memory could hold so many lines, it reads none. -/
structure Watches (keep : Nat) (stderr : List UInt8) (fate : Fate) (reading : Reading)
    (events : List RunEvent) (result : Except MediaFailure (List String)) : Prop where
  shown : roomFor keep ≤ mostTexts →
    events.filterMap RunEvent.logLine? = logTexts (reading.reached (lines stderr))
  held : roomFor keep ≤ mostTexts → reading = .ended → fate.IsEnd →
    tail? result = some (Job.lastOf (roomFor keep) (logTexts (lines stderr)))
  unread : mostTexts < roomFor keep → events = []
  dropped : mostTexts < roomFor keep ∨ reading ≠ .ended → fate.IsEnd → tail? result = some []

variable {memory keep : Nat} {fate : Fate} {reading : Reading}

theorem roomFor_pos (keep : Nat) : 0 < roomFor keep := lt_max_of_lt_right one_pos

theorem events_observe (h : fate.isRun = true) (keep : Nat) (stderr : List UInt8)
    (reading : Reading) :
    (observe keep stderr fate reading).1 = (readOutput keep stderr reading).1 := by
  cases fate with
  | exited | killed | timedOut | cancelled | lost => rfl
  | notFound | notStarted => cases h

theorem tail?_observe (h : fate.IsEnd) (keep : Nat) (stderr : List UInt8) (reading : Reading) :
    tail? (observe keep stderr fate reading).2 = some (readOutput keep stderr reading).2 := by
  cases fate with
  | exited code => by_cases hcode : code = 0 <;> simp [observe, hcode, tail?, exitFailure]
  | killed => rfl
  | notFound | notStarted | timedOut | cancelled | lost => cases h

theorem readOutput_of_le (h : roomFor keep ≤ mostTexts) (stderr : List UInt8) (reading : Reading) :
    (readOutput keep stderr reading).1.filterMap RunEvent.logLine? =
        logTexts (reading.reached (lines stderr)) ∧
      (readOutput keep stderr reading).2 =
        if reading = .ended then Job.lastOf (roomFor keep) (logTexts (lines stderr)) else [] := by
  rw [readOutput, if_neg (not_lt.2 h)]
  refine ⟨Reader.logLines_readAll _ _ _, ?_⟩
  dsimp only
  split
  · next hended =>
    rw [hended]
    exact Reader.tail_readAll (roomFor_pos keep) (Nat.zero_le _) (lines stderr)
  · rfl

theorem readOutput_of_lt (h : mostTexts < roomFor keep) (stderr : List UInt8) (reading : Reading) :
    readOutput keep stderr reading = ([], []) := by
  rw [readOutput, if_pos h]

theorem watches_observe (h : fate.isRun = true) (keep : Nat) (stderr : List UInt8)
    (reading : Reading) :
    Watches keep stderr fate reading (observe keep stderr fate reading).1
      (observe keep stderr fate reading).2 where
  shown hroom := by
    rw [events_observe h]
    exact (readOutput_of_le hroom stderr reading).1
  held hroom hended hend := by
    rw [tail?_observe hend, (readOutput_of_le hroom stderr reading).2, if_pos hended]
  unread hroom := by rw [events_observe h, readOutput_of_lt hroom]
  dropped hlost hend := by
    rw [tail?_observe hend]
    obtain hroom | hroom := lt_or_ge mostTexts (roomFor keep)
    · rw [readOutput_of_lt hroom]
    · rw [(readOutput_of_le hroom stderr reading).2, if_neg (hlost.resolve_left (not_lt.2 hroom))]

theorem run_eq_none_iff (h : fate.isRun = true) (stderr : List UInt8) :
    run memory keep stderr fate reading = none ↔
      roomFor keep ≤ mostTexts ∧ memory < roomFor keep * textSize := by
  simp [run, h]

theorem run_eq_some {stderr : List UInt8} {events : List RunEvent}
    {result : Except MediaFailure (List String)}
    (h : run memory keep stderr fate reading = some (events, result)) :
    observe keep stderr fate reading = (events, result) := by
  unfold run at h
  split at h
  · cases h
  · exact Option.some.inj h

/-- What a run to the end of the output shows and holds agrees, whether or not memory could hold
its tail. -/
theorem readOutput_snd (hkeep : 1 ≤ keep) (stderr : List UInt8) :
    (readOutput keep stderr .ended).2 =
      Job.lastOf keep ((readOutput keep stderr .ended).1.filterMap RunEvent.logLine?) := by
  obtain h | h := le_or_gt (roomFor keep) mostTexts
  · obtain ⟨hshown, hheld⟩ := readOutput_of_le h stderr .ended
    rw [hshown, hheld, if_pos rfl, roomFor, max_eq_left hkeep]
    rfl
  · rw [readOutput_of_lt h]
    exact (Job.lastOf_of_length_le (Nat.zero_le keep)).symm

/-- The log of a running job and the tail of a run hold the last lines. A job takes every batch and
its log depends on the stream of the lines alone. A run that is given memory for its tail shows all
lines that it reads, and its tail holds the last of them, one at least, if it reads the output to
its end; the tail is given up where something holds the output open. The program ends if the memory
is refused, and nothing is read where none could be large enough. The log of a job that is told of
nothing but a run to the end of the output ends as the tail of the run. -/
theorem tails_of_lines (room : Nat) :
    (∀ (j : Job) (batches : List (List String)), j.status = .running →
      (batches = [] → j.logsTail.length ≤ room) →
      (j.after (Job.pushes room batches)).logsTail =
          Job.lastOf room (j.logsTail ++ batches.flatten) ∧
        ∀ lines, ((OnJob.pushLogs lines room).run (j.after (Job.pushes room batches))).1 = .ok ()) ∧
    (∀ (memory : Nat) (stderr : List UInt8) (fate : Fate) (reading : Reading),
      fate.isRun = true →
      (run memory room stderr fate reading = none ↔
        roomFor room ≤ mostTexts ∧ memory < roomFor room * textSize) ∧
      ∀ events result, run memory room stderr fate reading = some (events, result) →
        Watches room stderr fate reading events result) ∧
    ∀ (j : Job) (total : Int64) (memory : Nat) (stderr : List UInt8) (fate : Fate) events result,
      1 ≤ room → j.status = .running → j.logsTail = [] → fate.IsEnd →
      run memory room stderr fate .ended = some (events, result) →
      tail? result =
        some (j.after ((Work.eventUpdates total room 0 events).map .update)).logsTail := by
  refine ⟨fun j batches hj hshort => ?_, fun memory stderr fate reading hrun => ?_,
    fun j total memory stderr fate events result hroom hj hempty hend hrun => ?_⟩
  · obtain ⟨hrunning, htail⟩ := Job.logsTail_after_pushes hj hshort
    refine ⟨htail, fun lines => ?_⟩
    exact congrArg Prod.fst (Job.run_update hrunning (.logs lines room))
  · refine ⟨run_eq_none_iff hrun stderr, fun events result h => ?_⟩
    have hwatches := watches_observe hrun room stderr reading
    rwa [run_eq_some h] at hwatches
  · have hshort : j.logsTail.length ≤ room := by
      rw [hempty]
      exact Nat.zero_le room
    have hlog := (Job.logsTail_after hj (Work.keepsTo_of_mem_eventUpdates total 0 events) hshort).2
    have hobserve := run_eq_some hrun
    have hevents : (readOutput room stderr .ended).1 = events := by
      rw [← events_observe hend.isRun, hobserve]
    have hresult : tail? result = some (readOutput room stderr .ended).2 := by
      rw [← tail?_observe hend, hobserve]
    rw [hlog, hempty, List.nil_append, Work.lines_eventUpdates, hresult, readOutput_snd hroom,
      hevents]

/-- A job that runs. -/
def runningJob : Job := (Job.queued "j" loosePlan 0 ⟨20000, 3661, 0⟩).started ⟨20000, 3662, 0⟩

/-- Three lines on the standard error. -/
def threeLines : List UInt8 := "one\ntwo\nthree\n".toUTF8.toList

theorem tails_of_threeLines : ∃ events result,
    run (2 ^ 30) 2 threeLines (.exited 3) .ended = some (events, result) ∧
    tail? result = some ["two", "three"] ∧
    (runningJob.after (Job.pushes 2 [["one"], ["two", "three"]])).logsTail = ["two", "three"] ∧
    tail? result =
      some (runningJob.after ((Work.eventUpdates 1000 2 0 events).map .update)).logsTail := by
  obtain ⟨hbatches, hwatches, hboth⟩ := tails_of_lines 2
  have hrun : run (2 ^ 30) 2 threeLines (.exited 3) .ended =
      some ((observe 2 threeLines (.exited 3)).1, (observe 2 threeLines (.exited 3)).2) := by
    decide +kernel
  have htail := ((hwatches _ _ _ _ rfl).2 _ _ hrun).held (by decide) rfl trivial
  exact ⟨_, _, hrun, htail.trans (by decide +kernel),
    (hbatches runningJob [["one"], ["two", "three"]] rfl nofun).1,
    hboth runningJob 1000 _ threeLines (.exited 3) _ _ (by decide) rfl rfl trivial hrun⟩

/-- A tail of a quintillion lines is not kept, and what is written is not shown, however much memory
there is. -/
theorem tail_of_endlessRoom : 1 ≤ 10 ^ 18 ∧
    logTexts (lines threeLines) = ["one", "two", "three"] ∧
    Job.lastOf (max (10 ^ 18) 1) ["one", "two", "three"] = ["one", "two", "three"] ∧
    ∀ memory, ∃ result, run memory (10 ^ 18) threeLines .killed .ended = some ([], result) ∧
      tail? result = some [] := by
  refine ⟨by decide, by decide +kernel, by decide +kernel, fun memory => ?_⟩
  refine ⟨(observe (10 ^ 18) threeLines .killed).2, ?_, by decide +kernel⟩
  rw [run, if_neg fun h => absurd h.2.1 (by decide)]
  decide +kernel

end EncoderRun

end RenderGateway
