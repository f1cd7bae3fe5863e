import Mathlib.Data.List.Induction
import RenderGateway.Proofs.Queue.Invariant

/-!
# Histories of the queue

A history is what a sequence of events made of an empty queue: its state, the
jobs that reached a worker and the jobs that ended while they waited. The main
result is `sound_of_history`: whatever the events are, as long as no job id is
submitted twice, the collections of the queue agree with each other, and the
dispatcher is never given a job that it would have to pass over.
-/

namespace RenderGateway.Queue

/-- The submission of a command. -/
def Command.submission? : Command → Option Submission
  | .enqueue s => some s
  | _ => none

/-- The submissions among the events, in order. -/
def submissions (events : List Event) : List Submission :=
  events.filterMap fun e => e.command.submission?

/-- No job id is submitted twice. -/
def FreshIds (events : List Event) : Prop := ((submissions events).map Submission.id).Nodup

instance (events : List Event) : Decidable (FreshIds events) := by
  unfold FreshIds; infer_instance

/-- The job that a command ends while it still waits in the line. -/
def cancels (q : Queue) (command : Command) (now : Instant) : List String :=
  match command with
  | .finish id outcome =>
    match q.jobs.find? id with
    | some job => if job.status = .queued ∧ (job.finish outcome now).isOk then [id] else []
    | none => []
  | _ => []

structure History where
  queue : Queue
  delivered : List ClaimedJob
  cancelled : List String

def History.next (h : History) (e : Event) : History where
  queue := (h.queue.step e.command e.now e.reached).1
  delivered := h.delivered ++ deliveries (h.queue.step e.command e.now e.reached).2
  cancelled := h.cancelled ++ h.queue.cancels e.command e.now

/-- What the events make of an empty queue. -/
def history (retained : Nat) (events : List Event) : History :=
  events.foldl History.next ⟨empty retained, [], []⟩

theorem history_snoc (retained : Nat) (events : List Event) (e : Event) :
    history retained (events ++ [e]) = (history retained events).next e := by
  simp only [history, List.foldl_append, List.foldl_cons, List.foldl_nil]

/-- All that is told in the course of the events, in order. -/
def tells (q : Queue) : List Event → List Notice
  | [] => []
  | e :: events =>
    (q.step e.command e.now e.reached).2 ++ (q.step e.command e.now e.reached).1.tells events

/-- What the queue tells in a history. -/
def notices (retained : Nat) (events : List Event) : List Notice := (empty retained).tells events

theorem tells_snoc (h : History) (events : List Event) (e : Event) :
    h.queue.tells (events ++ [e]) = h.queue.tells events ++
      ((events.foldl History.next h).queue.step e.command e.now e.reached).2 := by
  induction events generalizing h with
  | nil => exact List.append_nil _
  | cons first events ih =>
    rw [List.cons_append, tells, tells, List.append_assoc]
    exact congrArg (_ ++ ·) (ih (h.next first))

theorem notices_snoc (retained : Nat) (events : List Event) (e : Event) :
    notices retained (events ++ [e]) = notices retained events ++
      ((history retained events).queue.step e.command e.now e.reached).2 :=
  tells_snoc ⟨empty retained, [], []⟩ events e

theorem submissions_snoc (events : List Event) (e : Event) :
    submissions (events ++ [e]) = submissions events ++ e.command.submission?.toList := by
  simp only [submissions, List.filterMap_append]
  cases h : e.command.submission? <;> simp [h]

theorem FreshIds.of_snoc {events : List Event} {e : Event} (h : FreshIds (events ++ [e])) :
    FreshIds events := by
  rw [FreshIds, submissions_snoc, List.map_append] at h
  exact h.of_append_left

theorem FreshIds.not_mem_of_snoc {events : List Event} {e : Event} {s : Submission}
    (h : FreshIds (events ++ [e])) (he : e.command = .enqueue s) :
    s.id ∉ (submissions events).map Submission.id := by
  intro hs
  rw [FreshIds, submissions_snoc, List.map_append, List.nodup_append] at h
  exact h.2.2 s.id hs s.id (by simp [he, Command.submission?]) rfl

/-! ### Where the ids come from -/

/-- The id stands somewhere in the queue. -/
def Stands (q : Queue) (id : String) : Prop :=
  id ∈ q.pending ∨ q.current = some id ∨ id ∈ q.finished

theorem Consistent.find?_isSome_iff {q : Queue} (h : q.Consistent) (id : String) :
    (q.jobs.find? id).isSome = true ↔ q.Stands id := by
  constructor
  · intro hs
    obtain ⟨j, hj⟩ := Option.isSome_iff_exists.1 hs
    have hr := h.recorded hj
    cases hst : j.status with
    | queued => exact .inl (hr.queued_iff.1 hst)
    | running => exact .inr (.inl (hr.running_iff.1 hst))
    | done | error | partialSuccess =>
      exact .inr (.inr (hr.terminal_iff.1 (by simp [Job.isTerminal, hst, JobStatus.isTerminal])))
  · intro hs
    obtain ⟨j, hj, _⟩ := h.exists_recorded hs
    simp [hj]

theorem Dispatched.stands_iff {q r : Queue} {now : Instant} {notices : List Notice}
    (h : Dispatched q now r notices) (id : String) : r.Stands id ↔ q.Stands id := by
  cases h with
  | idle _ => rfl
  | left => rfl
  | @delivered s rest job worker current pending found queued planned =>
    change id ∈ rest ∨ some s.id = some id ∨ id ∈ q.finished ↔ _
    simp only [Stands, pending, current, List.mem_cons, Option.some.injEq]
    grind
  | @returned s rest job current pending found queued planned =>
    change id ∈ s.id :: rest ∨ none = some id ∨ id ∈ q.finished ↔ _
    simp only [Stands, pending, current]

theorem Consistent.stands_of_handed {q m : Queue} (h : q.Consistent) {command : Command}
    {now : Instant} (hm : q.handed command now = some m) {id : String} (hs : m.Stands id) :
    q.Stands id ∨ ∃ s, command = .enqueue s ∧ s.id = id := by
  cases handed_cases hm with
  | admitted s =>
    rcases hs with hs | hs | hs
    · rcases List.mem_append.1 hs with hp | hp
      · exact .inl (.inl hp)
      · exact .inr ⟨s, rfl, (List.mem_singleton.1 hp).symm⟩
    · exact .inl (.inr (.inl hs))
    · exact .inl (.inr (.inr hs))
  | awaited worker current => exact .inl hs
  | @closed other outcome job ended found ok =>
    have ho : q.Stands other := (h.find?_isSome_iff other).1 (by simp [found])
    left
    rcases hs with hs | hs | hs
    · change id ∈ (if job.status = .queued then q.pending.filter (· ≠ other) else q.pending) at hs
      split at hs
      · exact .inl (List.mem_of_mem_filter hs)
      · exact .inl hs
    · change (if q.current = some other then none else q.current) = some id at hs
      split at hs
      · cases hs
      · exact .inr (.inl hs)
    · rcases List.mem_append.1 (List.mem_of_mem_drop hs) with hf | hf
      · exact .inr (.inr hf)
      · exact List.mem_singleton.1 hf ▸ ho

theorem stands_of_kept {q : Queue} {command : Command} {id : String}
    (hs : (q.kept command).Stands id) : q.Stands id := by
  obtain ⟨jobs, waiting, hkept⟩ := q.kept_eq command
  rw [hkept] at hs
  exact hs

/-- A step brings in no id but that of its submission. -/
theorem Settled.stands_of_step {q : Queue} (h : q.Settled) {e : Event}
    (fresh : q.Fresh e.command) {id : String}
    (hs : (q.step e.command e.now e.reached).1.Stands id) :
    q.Stands id ∨ id ∈ e.command.submission?.toList.map Submission.id := by
  cases hm : q.handed e.command e.now with
  | none =>
    rw [(step_of_not_handed hm e.reached).1] at hs
    exact .inl (stands_of_kept hs)
  | some m =>
    rw [(step_of_handed hm e.reached).1] at hs
    have hd := (h.handed fresh hm).dispatched e.now e.reached
    rcases h.stands_of_handed hm ((hd.stands_iff id).1 hs) with hs | ⟨s, he, rfl⟩
    · exact .inl hs
    · exact .inr (by simp [he, Command.submission?])

/-! ### All histories -/

/-- What holds of a queue after any history. -/
structure Sound (q : Queue) : Prop where
  /-- No id stands in two places, or twice in one. -/
  places_nodup : (q.pending ++ q.current.toList ++ q.finished).Nodup
  /-- The ids of the table are those that stand somewhere. -/
  find?_isSome_iff : ∀ id,
    (q.jobs.find? id).isSome = true ↔ id ∈ q.pending ++ q.current.toList ++ q.finished
  queued_of_pending : ∀ id ∈ q.pending, ∀ j, q.jobs.find? id = some j → j.status = .queued
  running_iff_current : ∀ id j, q.jobs.find? id = some j →
    (j.status = .running ↔ q.current = some id)
  terminal_of_finished : ∀ id ∈ q.finished, ∀ j, q.jobs.find? id = some j → j.isTerminal = true
  plans_isSome_iff : ∀ id, (q.plans.find? id).isSome = true ↔ id ∈ q.pending
  /-- A position counts the jobs ahead, as far as a word of 64 bits counts. -/
  position_of_pending : ∀ k id j, q.pending[k]? = some id → q.jobs.find? id = some j →
    j.queuePosition.toNat = min (k + if q.current.isSome then 1 else 0) (2 ^ 64 - 1)
  position_of_not_pending : ∀ id ∉ q.pending, ∀ j, q.jobs.find? id = some j →
    j.queuePosition = 0
  finished_length_le : q.finished.length ≤ q.retained
  idle_of_waiting : q.waiting.isSome = true → q.current = none ∧ q.pending = []

theorem Consistent.places_nodup {q : Queue} (h : q.Consistent) :
    (q.pending ++ q.current.toList ++ q.finished).Nodup := by
  rw [List.append_assoc, List.nodup_append, List.nodup_append]
  refine ⟨h.pending_nodup, ⟨?_, h.finished_nodup, ?_⟩, ?_⟩
  · cases q.current <;> simp
  · rintro a ha b hb rfl
    exact h.not_mem_finished_of_current (Option.mem_toList.1 ha) hb
  · rintro a ha b hb rfl
    rcases List.mem_append.1 hb with hb | hb
    · exact h.current_ne_of_mem_pending ha (Option.mem_toList.1 hb)
    · exact h.not_mem_finished_of_mem_pending ha hb

theorem Prepared.position_of_pending {q : Queue} (h : q.Prepared) {k : Nat} {id : String} {j : Job}
    (hk : q.pending[k]? = some id) (hj : q.jobs.find? id = some j) :
    j.queuePosition.toNat = min (k + if q.current.isSome then 1 else 0) (2 ^ 64 - 1) := by
  obtain ⟨hlt, rfl⟩ := List.getElem?_eq_some_iff.1 hk
  rw [h.positioned _ (List.getElem_mem hlt) j hj, h.pending_nodup.idxOf_getElem k hlt, positionOf,
    Word.toNat_ofNat]

theorem Settled.sound {q : Queue} (h : q.Settled) : q.Sound where
  places_nodup := h.places_nodup
  find?_isSome_iff id := by
    rw [h.toConsistent.find?_isSome_iff id]
    simp only [Stands, List.mem_append, Option.mem_toList, or_assoc]
  queued_of_pending id hid j hj := (h.recorded hj).queued_iff.2 hid
  running_iff_current id j hj := (h.recorded hj).running_iff
  terminal_of_finished id hid j hj := (h.recorded hj).terminal_iff.2 hid
  plans_isSome_iff := h.planned
  position_of_pending _ _ _ hk hj := h.toPrepared.position_of_pending hk hj
  position_of_not_pending id hid j hj := (h.recorded hj).position_eq_zero hid
  finished_length_le := h.finished_length_le
  idle_of_waiting hw := ⟨h.current_of_waiting hw, h.pending_of_waiting hw⟩

theorem fresh_of_stands {q : Queue} {events : List Event} {e : Event} (hq : q.Consistent)
    (hs : ∀ id, q.Stands id → id ∈ (submissions events).map Submission.id)
    (fresh : FreshIds (events ++ [e])) : q.Fresh e.command := by
  cases hc : e.command with
  | enqueue s =>
    have hn := fresh.not_mem_of_snoc hc
    have hnot := mt ((hq.find?_isSome_iff s.id).1) fun h => hn (hs s.id h)
    simpa [Fresh] using hnot
  | claim _ | leave _ | update _ _ | finish _ _ => trivial

theorem Dispatched.retained_eq {q r : Queue} {now : Instant} {notices : List Notice}
    (h : Dispatched q now r notices) : r.retained = q.retained := by
  cases h <;> rfl

theorem Handed.retained_eq {q m : Queue} {command : Command} {now : Instant}
    (h : Handed q now command m) : m.retained = q.retained := by
  cases h <;> rfl

theorem Settled.step_retained {q : Queue} (h : q.Settled) {e : Event} (fresh : q.Fresh e.command) :
    (q.step e.command e.now e.reached).1.retained = q.retained := by
  cases hm : q.handed e.command e.now with
  | none =>
    obtain ⟨jobs, waiting, hkept⟩ := q.kept_eq e.command
    rw [(step_of_not_handed hm e.reached).1, hkept]
  | some m =>
    rw [(step_of_handed hm e.reached).1,
      ((h.handed fresh hm).dispatched e.now e.reached).retained_eq]
    exact (handed_cases hm).retained_eq

/-- What a history leaves: a settled queue in which no id stands that was not
submitted. -/
structure Sourced (retained : Nat) (events : List Event) (q : Queue) : Prop where
  settled : q.Settled
  submitted : ∀ id, q.Stands id → id ∈ (submissions events).map Submission.id
  retained_eq : q.retained = retained

theorem sourced_history (retained : Nat) (events : List Event) (fresh : FreshIds events) :
    Sourced retained events (history retained events).queue := by
  induction events using List.reverseRecOn with
  | nil =>
    refine ⟨Settled.empty retained, ?_, rfl⟩
    rintro id (h | h | h) <;> cases h
  | append_singleton events e ih =>
    obtain ⟨hsettled, hsubmitted, hretained⟩ := ih fresh.of_snoc
    -- an id that stands was submitted, so the next submission is new to the table
    have hfresh := fresh_of_stands hsettled.toConsistent hsubmitted fresh
    rw [history_snoc]
    refine ⟨hsettled.step hfresh e.now e.reached, ?_,
      (hsettled.step_retained hfresh).trans hretained⟩
    intro id hid
    rw [submissions_snoc, List.map_append, List.mem_append]
    exact (hsettled.stands_of_step hfresh hid).imp_left (hsubmitted id)

/-- The next event of a history with fresh ids is fresh for its queue. -/
theorem Sourced.fresh {retained : Nat} {events : List Event} {q : Queue}
    (h : Sourced retained events q) {e : Event} (fresh : FreshIds (events ++ [e])) :
    q.Fresh e.command :=
  fresh_of_stands h.settled.toConsistent h.submitted fresh

/-- After every history without a repeated id the queue is sound, and whatever
state the next event hands to the dispatcher, each job of its line can start. -/
theorem sound_of_history (retained : Nat) (events : List Event) (fresh : FreshIds events) :
    (history retained events).queue.Sound ∧
      (history retained events).queue.retained = retained ∧
      ∀ e m, FreshIds (events ++ [e]) →
        (history retained events).queue.handed e.command e.now = some m →
        (history retained (events ++ [e])).queue = (m.dispatch e.now e.reached).1 ∧
          m.Ready e.now := by
  have hs := sourced_history retained events fresh
  refine ⟨hs.settled.sound, hs.retained_eq, ?_⟩
  intro e m he hm
  refine ⟨?_, (hs.settled.handed (hs.fresh he) hm).toConsistent.ready e.now⟩
  rw [history_snoc]
  exact (step_of_handed hm e.reached).1

/-- A plan of no segments. -/
def barePlan (id : String) : Plan where
  id := id
  projectId := none
  defaultUrl := none
  sources := []
  format := OutputFormat.ofSize 2 2
  timeline := []
  audioTracks := []
  textOverlays := []
  summary := none

/-- The first job is handed out in vain and then cancelled, the second one is
delivered, and the third one waits. -/
def threeJobs : List Event :=
  [⟨.enqueue ⟨"a", barePlan "one", none⟩, default, true⟩,
   ⟨.claim 1, default, false⟩,
   ⟨.enqueue ⟨"b", barePlan "two", some "clip"⟩, default, true⟩,
   ⟨.finish "a" (.failed (.ofMessage .internal "cancelled")), default, true⟩,
   ⟨.claim 2, default, true⟩,
   ⟨.enqueue ⟨"c", barePlan "three", none⟩, default, true⟩]

theorem sound_of_threeJobs :
    FreshIds threeJobs ∧ (history 1 threeJobs).queue.pending = ["c"] ∧
      (history 1 threeJobs).queue.current = some "b" ∧
      (history 1 threeJobs).queue.finished = ["a"] ∧ (history 1 threeJobs).queue.Sound :=
  ⟨by decide, by decide, by decide, by decide, (sound_of_history 1 threeJobs (by decide)).1⟩

end RenderGateway.Queue
