import RenderGateway.Proofs.Queue.History

/-!
# The finished jobs that stay known

The ids of the jobs whose end was told, in that order, say what the table holds: the newest of them
up to the number retained, and every submitted job that is not among them.
-/

namespace RenderGateway

theorem Job.lastOf_append_lastOf (n : Nat) (as bs : List α) :
    lastOf n (lastOf n as ++ bs) = lastOf n (as ++ bs) := by
  have hle : as.length - n ≤ as.length := Nat.sub_le _ _
  rw [lastOf, lastOf, lastOf, ← List.drop_append_of_le_length hle, List.drop_drop]
  congr 1
  simp only [List.length_drop, List.length_append]
  omega

namespace Queue

namespace Notice

/-- The job that ended. -/
def ended? : Notice → Option String
  | finished (.ok job) => some job.id
  | _ => none

end Notice

/-- The jobs whose end was told, in order. -/
def endings (notices : List Notice) : List String := notices.filterMap Notice.ended?

/-- The id waits in the line or runs. -/
def Alive (q : Queue) (id : String) : Prop := id ∈ q.pending ∨ q.current = some id

section

variable {q m r : Queue} {id : String} {now : Instant} {command : Command}

theorem endings_append (xs ys : List Notice) : endings (xs ++ ys) = endings xs ++ endings ys :=
  List.filterMap_append

theorem endings_dispatch (q : Queue) (now : Instant) (reached : Bool) :
    endings (q.dispatch now reached).2 = [] := by
  rw [endings, List.filterMap_eq_nil_iff]
  intro n hn
  obtain ⟨worker, claimed, rfl⟩ := exists_of_mem_dispatch hn
  rfl

/-! ### Jobs of the table by their place -/

theorem Consistent.exists_terminal_iff (h : q.Consistent) :
    (∃ j, q.jobs.find? id = some j ∧ j.isTerminal = true) ↔ id ∈ q.finished := by
  constructor
  · rintro ⟨j, hj, ht⟩
    exact (h.recorded hj).terminal_iff.1 ht
  · intro hf
    obtain ⟨j, hj, hr⟩ := h.exists_recorded (.inr (.inr hf))
    exact ⟨j, hj, hr.terminal_iff.2 hf⟩

theorem Consistent.not_mem_finished_of_alive (h : q.Consistent) (ha : q.Alive id) :
    id ∉ q.finished :=
  ha.elim h.not_mem_finished_of_mem_pending h.not_mem_finished_of_current

theorem Consistent.exists_alive_iff (h : q.Consistent) :
    (∃ j, q.jobs.find? id = some j ∧ j.isTerminal = false) ↔ q.Alive id := by
  constructor
  · rintro ⟨j, hj, ht⟩
    have hr := h.recorded hj
    rcases (h.find?_isSome_iff id).1 (by simp [hj]) with hp | hc | hf
    · exact .inl hp
    · exact .inr hc
    · rw [hr.terminal_iff.2 hf] at ht
      cases ht
  · intro ha
    obtain ⟨j, hj, hr⟩ := h.exists_recorded (ha.imp_right .inl)
    exact ⟨j, hj, Bool.eq_false_iff.2 (mt hr.terminal_iff.1 (h.not_mem_finished_of_alive ha))⟩

/-! ### One step -/

theorem Dispatched.finished_eq {notices : List Notice} (h : Dispatched q now r notices) :
    r.finished = q.finished := by
  cases h <;> rfl

theorem Dispatched.alive_iff {notices : List Notice} (h : Dispatched q now r notices)
    (id : String) : r.Alive id ↔ q.Alive id := by
  cases h with
  | idle _ | left => rfl
  | @delivered s rest job worker current pending found queued planned =>
    change id ∈ rest ∨ some s.id = some id ↔ _
    simp only [Alive, pending, current, List.mem_cons, Option.some.injEq]
    grind
  | @returned s rest job current pending found queued planned =>
    change id ∈ s.id :: rest ∨ none = some id ↔ _
    simp only [Alive, pending, current]

/-- A step from one state to another accepts the submitted jobs and tells the end of others. -/
structure Retires (q : Queue) (submitted ended : List String) (r : Queue) : Prop where
  finished_eq : r.finished = Job.lastOf q.retained (q.finished ++ ended)
  alive_of_ended : ∀ id ∈ ended, q.Alive id
  ended_nodup : ended.Nodup
  alive_iff : ∀ id, r.Alive id ↔ (q.Alive id ∨ id ∈ submitted) ∧ id ∉ ended

theorem retires_of_no_ending (h : q.finished.length ≤ q.retained) {submitted : List String}
    (finished : r.finished = q.finished)
    (alive : ∀ id, r.Alive id ↔ q.Alive id ∨ id ∈ submitted) : q.Retires submitted [] r where
  finished_eq := by simp [finished, Job.lastOf, Nat.sub_eq_zero_of_le h]
  alive_of_ended := nofun
  ended_nodup := List.nodup_nil
  alive_iff id := by simp [alive id]

theorem alive_closed {job : Job} (hq : q.Consistent) (found : q.jobs.find? id = some job)
    (ended : Job) (other : String) :
    (q.closed id job ended).Alive other ↔ q.Alive other ∧ other ≠ id := by
  by_cases ho : other = id
  · subst ho
    obtain ⟨hp, hc⟩ := hq.left_of_closed found ended
    simp [Alive, hp, hc]
  · have hex := alikeExcept_closed q id job ended
    simp [Alive, hex.pending other ho, hex.current other ho, ho]

theorem Handed.retires (h : Handed q now command m) (settled : q.Settled) (reached : Bool) :
    q.Retires (command.submission?.toList.map Submission.id)
      (endings (q.step command now reached).2) m := by
  cases h with
  | admitted s =>
    have hnone : endings (q.step (.enqueue s) now reached).2 = [] := by
      obtain ⟨job, he⟩ := q.enqueue_eq s now reached
      rw [step, he, endings_append, endings_dispatch]
      rfl
    rw [hnone]
    refine retires_of_no_ending settled.finished_length_le rfl fun id => ?_
    simp only [Alive, Queue.admitted, Command.submission?, Option.toList_some, List.map_cons,
      List.map_nil, List.mem_append]
    exact or_right_comm
  | awaited worker current =>
    have hnone : endings (q.step (.claim worker) now reached).2 = [] := by
      rw [step, claim_of_idle current, endings_append, endings_dispatch, displaced]
      split <;> rfl
    rw [hnone]
    exact retires_of_no_ending settled.finished_length_le rfl fun id =>
      (or_iff_left List.not_mem_nil).symm
  | @closed id outcome job ended found ok =>
    have hr := settled.recorded found
    have hend := Job.ended_of_finish ok
    have hone : endings (q.step (.finish id outcome) now reached).2 = [id] := by
      rw [step, finish_of_ended found ok, endings_append, endings_dispatch]
      exact congrArg ([·]) (hend.id_eq.trans hr.id_eq)
    rw [hone]
    exact {
      finished_eq := rfl
      alive_of_ended := fun other ho => by
        rw [List.mem_singleton.1 ho]
        exact hend.alive.imp hr.queued_iff.1 hr.running_iff.1
      ended_nodup := List.nodup_singleton id
      alive_iff := fun other => by
        have hno : other ∉ (Command.finish id outcome).submission?.toList.map Submission.id :=
          List.not_mem_nil
        rw [or_iff_left hno, List.mem_singleton]
        exact alive_closed settled.toConsistent found ended other }

theorem retires_kept (settled : q.Settled) (hm : q.handed command now = none) (reached : Bool) :
    q.Retires (command.submission?.toList.map Submission.id)
      (endings (q.step command now reached).2) (q.kept command) := by
  obtain ⟨jobs, waiting, hkept⟩ := q.kept_eq command
  have hnone : endings (q.step command now reached).2 = [] ∧ command.submission? = none := by
    cases command with
    | enqueue s => cases hm
    | claim worker =>
      cases hc : q.current with
      | none => simp [handed, hc] at hm
      | some id =>
        rw [step, claim_of_current hc]
        exact ⟨rfl, rfl⟩
    | leave worker => exact ⟨rfl, rfl⟩
    | update id u => exact ⟨rfl, rfl⟩
    | finish id outcome =>
      obtain ⟨error, he⟩ := finish_of_not_handed hm reached
      rw [step, he]
      exact ⟨rfl, rfl⟩
  rw [hnone.1, hnone.2, hkept]
  exact retires_of_no_ending settled.finished_length_le rfl fun id =>
    (or_iff_left List.not_mem_nil).symm

theorem Settled.retires (settled : q.Settled) {e : Event} (fresh : q.Fresh e.command) :
    q.Retires (e.command.submission?.toList.map Submission.id)
      (endings (q.step e.command e.now e.reached).2)
      (q.step e.command e.now e.reached).1 := by
  cases hm : q.handed e.command e.now with
  | none =>
    rw [(step_of_not_handed hm e.reached).1]
    exact retires_kept settled hm e.reached
  | some m =>
    have hr := (handed_cases hm).retires settled e.reached
    have hd := (settled.handed fresh hm).dispatched e.now e.reached
    rw [(step_of_handed hm e.reached).1]
    exact { hr with
      finished_eq := hd.finished_eq.trans hr.finished_eq
      alive_iff := fun id => (hd.alive_iff id).trans (hr.alive_iff id) }

end

/-! ### All histories -/

/-- The account of the jobs that ended. -/
structure Retained (retained : Nat) (submitted ended : List String) (q : Queue) : Prop where
  finished_eq : q.finished = Job.lastOf retained ended
  ended_nodup : ended.Nodup
  ended_subset : ended ⊆ submitted
  alive_iff : ∀ id, q.Alive id ↔ id ∈ submitted ∧ id ∉ ended

theorem Retained.step {q r : Queue} {retained : Nat} {submitted ended new stopped : List String}
    (h : Retained retained submitted ended q) (hr : q.Retires new stopped r)
    (bound : q.retained = retained) (fresh : ∀ id ∈ new, id ∉ submitted) :
    Retained retained (submitted ++ new) (ended ++ stopped) r where
  finished_eq := by rw [hr.finished_eq, h.finished_eq, bound, Job.lastOf_append_lastOf]
  ended_nodup := by
    refine List.nodup_append.2 ⟨h.ended_nodup, hr.ended_nodup, ?_⟩
    rintro id hid _ hs rfl
    exact ((h.alive_iff id).1 (hr.alive_of_ended id hs)).2 hid
  ended_subset := by
    intro id hid
    apply List.mem_append_left
    rcases List.mem_append.1 hid with hid | hid
    · exact h.ended_subset hid
    · exact ((h.alive_iff id).1 (hr.alive_of_ended id hid)).1
  alive_iff id := by
    have hnew : id ∈ new → id ∉ ended := fun hn he => fresh id hn (h.ended_subset he)
    rw [hr.alive_iff, h.alive_iff, List.mem_append, List.mem_append]
    tauto

theorem retained_history (retained : Nat) (events : List Event) (fresh : FreshIds events) :
    Retained retained ((submissions events).map Submission.id)
      (endings (notices retained events)) (history retained events).queue := by
  induction events using List.reverseRecOn with
  | nil =>
    exact {
      finished_eq := List.drop_nil.symm
      ended_nodup := List.nodup_nil
      ended_subset := List.nil_subset _
      alive_iff := fun id => by simp [Alive, history, empty, submissions] }
  | append_singleton events e ih =>
    have hs := sourced_history retained events fresh.of_snoc
    have hr := hs.settled.retires (hs.fresh fresh)
    rw [history_snoc, notices_snoc, endings_append, submissions_snoc, List.map_append]
    refine (ih fresh.of_snoc).step hr hs.retained_eq fun id hid => ?_
    rw [FreshIds, submissions_snoc, List.map_append, List.nodup_append] at fresh
    exact fun hsub => fresh.2.2 id hsub id hid rfl

/-- After every history without a repeated id, the records of ended jobs in the table are those of
the jobs that ended last, up to the number retained. No job ends twice, and every submitted job
that has not ended is in the table, and nothing else. -/
theorem readable_of_history (retained : Nat) (events : List Event) (fresh : FreshIds events) :
    (∀ id, (∃ j, (history retained events).queue.jobs.find? id = some j ∧ j.isTerminal = true) ↔
      id ∈ Job.lastOf retained (endings (notices retained events))) ∧
    (endings (notices retained events)).Nodup ∧
    ∀ id, (∃ j, (history retained events).queue.jobs.find? id = some j ∧ j.isTerminal = false) ↔
      id ∈ (submissions events).map Submission.id ∧ id ∉ endings (notices retained events) := by
  have hq := (sourced_history retained events fresh).settled.toConsistent
  have hr := retained_history retained events fresh
  refine ⟨fun id => ?_, hr.ended_nodup, fun id => ?_⟩
  · rw [hq.exists_terminal_iff, hr.finished_eq]
  · rw [hq.exists_alive_iff, hr.alive_iff]

/-- Two jobs have ended, of which one is retained, and the third one waits. -/
theorem readable_of_twoEnded :
    let events := threeJobs ++ [⟨.finish "b" (.failed (.ofMessage .internal "lost")), default, true⟩]
    endings (notices 1 events) = ["a", "b"] ∧
      (¬ ∃ j, (history 1 events).queue.jobs.find? "a" = some j ∧ j.isTerminal = true) ∧
      (∃ j, (history 1 events).queue.jobs.find? "b" = some j ∧ j.isTerminal = true) ∧
      ∃ j, (history 1 events).queue.jobs.find? "c" = some j ∧ j.isTerminal = false := by
  intro events
  obtain ⟨hended, -, halive⟩ := readable_of_history 1 events (by decide)
  exact ⟨by decide, mt (hended "a").1 (by decide), (hended "b").2 (by decide),
    (halive "c").2 (by decide)⟩

end Queue

end RenderGateway
