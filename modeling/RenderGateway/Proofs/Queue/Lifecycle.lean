import RenderGateway.Proofs.Job.Later
import RenderGateway.Proofs.Queue.History

/-!
# The life of a job as readers see it

Readers of the queue see the table as it is after a step, and they may miss any
number of steps. `Evolves` says what a change of the queue does to the records
that are there before and after it; a new record comes only with a submission.
As no id is submitted twice, a reader never sees a record that comes before one
it has seen, and a job that is gone stays gone.
-/

namespace RenderGateway.Queue

/-- Every record of the second table follows one of the first. -/
def Evolves (t u : Table Job) : Prop :=
  ∀ id k, u.find? id = some k → ∃ j, t.find? id = some j ∧ j.Follows k

namespace Evolves

variable {t u v : Table Job} {id : String} {j k : Job}

theorem refl (t : Table Job) : Evolves t t := fun _ k hk => ⟨k, hk, .refl k⟩

theorem trans (h : Evolves t u) (h' : Evolves u v) : Evolves t v := by
  intro id l hl
  obtain ⟨k, hk, hkl⟩ := h' id l hl
  obtain ⟨j, hj, hjk⟩ := h id k hk
  exact ⟨j, hj, hjk.trans hkl⟩

theorem insert (h : Evolves t u) (found : t.find? id = some j) (hk : j.Follows k) :
    Evolves t (Table.insert id k u) := by
  intro other l hl
  rw [Table.find?_insert] at hl
  split at hl
  · next he =>
    cases hl
    exact ⟨j, he ▸ found, hk⟩
  · exact h other l hl

theorem foldl_erase (t : Table Job) (keys : List String) :
    Evolves t (keys.foldl Table.erase t) := by
  intro id k hk
  rw [Table.find?_foldl_erase] at hk
  split at hk
  · cases hk
  · exact ⟨k, hk, .refl k⟩

theorem modify (t : Table Job) (id : String) {f : Job → Job}
    (hf : ∀ j : Job, j.Follows (f j)) :
    Evolves t (t.modify id f) := by
  intro other k hk
  rw [Table.find?_modify] at hk
  split at hk
  · obtain ⟨j, hj, rfl⟩ := Option.map_eq_some_iff.1 hk
    exact ⟨j, hj, hf j⟩
  · exact ⟨k, hk, .refl k⟩

end Evolves

section

variable {q r : Queue} {now : Instant}

theorem positionOf_le {m n : Nat}
    (h : m + (if r.current.isSome then 1 else 0) ≤ n + if q.current.isSome then 1 else 0) :
    r.positionOf m ≤ q.positionOf n := by
  rw [UInt64.le_iff_toNat_le, positionOf, positionOf, Word.toNat_ofNat, Word.toNat_ofNat]
  omega

/-- A repositioning in which every job of the line moves up or keeps its place. -/
theorem evolves_reposition (hn : q.pending.Nodup)
    (h : ∀ id ∈ q.pending, ∀ j, q.jobs.find? id = some j →
      j.status = .queued ∧ q.positionOf (q.pending.idxOf id) ≤ j.queuePosition) :
    Evolves q.jobs q.reposition.jobs := by
  intro id k hk
  rw [find?_reposition q hn, Option.map_eq_some_iff] at hk
  obtain ⟨j, hj, rfl⟩ := hk
  refine ⟨j, hj, ?_⟩
  split
  · next hid =>
    obtain ⟨hs, hp⟩ := h id hid j hj
    exact Job.follows_repositioned hs hp
  · exact .refl j

theorem Prepared.evolves_served (h : q.Prepared) {s : Submission} {rest : List String} {job : Job}
    (current : q.current = none) (pending : q.pending = s.id :: rest)
    (found : q.jobs.find? s.id = some job) (queued : job.status = .queued) (now : Instant) :
    Evolves q.jobs (q.served s rest (job.started now)).jobs := by
  have hn := h.pending_nodup
  rw [pending, List.nodup_cons] at hn
  refine ((Evolves.refl q.jobs).insert found (Job.follows_started queued now)).trans
    (evolves_reposition hn.2 ?_)
  intro id hid j hj
  have hne : s.id ≠ id := fun he => hn.1 (he ▸ hid)
  rw [Table.find?_insert, if_neg hne] at hj
  have hmem : id ∈ q.pending := by rw [pending]; exact List.mem_cons_of_mem _ hid
  refine ⟨(h.recorded hj).queued_iff.2 hmem, ?_⟩
  rw [h.positioned id hmem j hj, pending, List.idxOf_cons_ne _ hne]
  apply positionOf_le
  simp [current]

/-- A job whose answer was lost is where it was, and so are those behind it. -/
theorem Prepared.evolves_putBack (h : q.Prepared) {s : Submission} {rest : List String} {job : Job}
    (current : q.current = none) (pending : q.pending = s.id :: rest)
    (found : q.jobs.find? s.id = some job) (queued : job.status = .queued) (now : Instant) :
    Evolves q.jobs ((q.served s rest (job.started now)).putBack s now).jobs := by
  have hserved := h.toConsistent.served current pending found now
  have hpositioned : (q.served s rest (job.started now)).Positioned :=
    positioned_reposition _ hserved.pending_nodup
  have hn := h.pending_nodup
  rw [pending] at hn
  have hid : s.id = job.id := (h.recorded found).id_eq.symm
  have hback : job.Follows (Job.queued s.id s.plan 0 now) :=
    hid ▸ Job.follows_queued queued s.plan now
  refine ((h.evolves_served current pending found queued now).insert found hback).trans
    (evolves_reposition hn ?_)
  intro id hmem j hj
  rw [Table.find?_insert] at hj
  split at hj
  · next he =>
    cases hj
    refine ⟨rfl, ?_⟩
    change positionOf _ ((s.id :: rest).idxOf id) ≤ _
    rw [← he, List.idxOf_cons_self]
    exact UInt64.le_refl 0
  · next hne =>
    have hrest : id ∈ rest := (List.mem_cons.1 hmem).resolve_left (Ne.symm hne)
    refine ⟨(hserved.recorded hj).queued_iff.2 hrest, ?_⟩
    change positionOf _ ((s.id :: rest).idxOf id) ≤ _
    rw [hpositioned id hrest j hj, List.idxOf_cons_ne _ hne]
    exact positionOf_le (Nat.le_refl _)

theorem Prepared.evolves_dispatched (h : q.Prepared) {notices : List Notice}
    (hd : Dispatched q now r notices) : Evolves q.jobs r.jobs := by
  cases hd with
  | idle _ | left => exact .refl q.jobs
  | delivered current pending found queued planned =>
    exact h.evolves_served current pending found queued now
  | returned current pending found queued planned =>
    exact h.evolves_putBack current pending found queued now

theorem idxOf_filter_le (p : String → Bool) (ids : List String) {id : String} (hp : p id = true) :
    (ids.filter p).idxOf id ≤ ids.idxOf id := by
  induction ids with
  | nil => exact Nat.le_refl _
  | cons other rest ih =>
    by_cases he : other = id
    · subst he
      simp [hp]
    · by_cases ho : p other = true
      · rw [List.filter_cons_of_pos ho, List.idxOf_cons_ne _ he, List.idxOf_cons_ne _ he]
        exact Nat.succ_le_succ ih
      · rw [List.filter_cons_of_neg ho, List.idxOf_cons_ne _ he]
        exact Nat.le_succ_of_le ih

/-- An end takes one job out of the line at most, and no other job moves back. -/
theorem Consistent.closed_pending (h : q.Consistent) {id : String} {job ended : Job}
    (found : q.jobs.find? id = some job) {other : String}
    (hmem : other ∈ (q.closed id job ended).pending) :
    other ≠ id ∧ other ∈ q.pending ∧
      (q.closed id job ended).positionOf ((q.closed id job ended).pending.idxOf other) ≤
        q.positionOf (q.pending.idxOf other) := by
  have hcurrent : (if (q.closed id job ended).current.isSome then 1 else 0) ≤
      if q.current.isSome then 1 else 0 := by
    by_cases hc : q.current = some id <;> simp [Queue.closed, hc]
  by_cases hs : job.status = .queued
  · have hp : (q.closed id job ended).pending = q.pending.filter (· ≠ id) := by
      simp [Queue.closed, hs]
    rw [hp, List.mem_filter] at hmem
    obtain ⟨hmem, hne⟩ := hmem
    refine ⟨by simpa using hne, hmem, positionOf_le ?_⟩
    rw [hp]
    exact Nat.add_le_add (idxOf_filter_le _ _ hne) hcurrent
  · have hp : (q.closed id job ended).pending = q.pending := by simp [Queue.closed, hs]
    rw [hp] at hmem
    refine ⟨?_, hmem, positionOf_le ?_⟩
    · rintro rfl
      exact hs ((h.recorded found).queued_iff.2 hmem)
    · rw [hp]
      exact Nat.add_le_add (Nat.le_refl _) hcurrent

theorem Settled.evolves_closed (h : q.Settled) {id : String} {outcome : JobOutcome}
    {job ended : Job} (found : q.jobs.find? id = some job)
    (ok : job.finish outcome now = .ok ended) :
    Evolves q.jobs (q.closed id job ended).evict.reposition.jobs := by
  have hclosed := h.toConsistent.closed found (Job.ended_of_finish ok)
  have hinsert : Evolves q.jobs (q.closed id job ended).jobs :=
    (Evolves.refl q.jobs).insert found (Job.follows_of_finish ok)
  have hevict : Evolves q.jobs (q.closed id job ended).evict.jobs :=
    hinsert.trans (.foldl_erase _ _)
  refine hevict.trans (evolves_reposition hclosed.evict.pending_nodup ?_)
  intro other hmem j hj
  have hline : other ∈ (q.closed id job ended).pending := hmem
  obtain ⟨hne, hpending, hposition⟩ := h.closed_pending found hline
  have hold : q.jobs.find? other = some j := by
    change (List.foldl Table.erase (Table.insert id ended q.jobs) _).find? other = some j at hj
    rw [Table.find?_foldl_erase] at hj
    split at hj
    · cases hj
    · rwa [Table.find?_insert, if_neg hne.symm] at hj
  refine ⟨(h.recorded hold).queued_iff.2 hpending, ?_⟩
  rw [h.positioned other hpending j hold]
  exact hposition

theorem evolves_kept (q : Queue) (command : Command) : Evolves q.jobs (q.kept command).jobs := by
  cases command with
  | update id u => exact .modify q.jobs id fun j => Job.follows_updated j u
  | leave worker =>
    have hjobs : (q.leave worker).jobs = q.jobs := by
      unfold leave
      split
      · split <;> rfl
      · rfl
    change Evolves q.jobs (q.leave worker).jobs
    rw [hjobs]
    exact .refl q.jobs
  | enqueue _ | claim _ | finish _ _ => exact .refl q.jobs

/-- A record after a step follows one before it, or it is the record of a submission. -/
theorem Settled.step_follows (h : q.Settled) {e : Event} (fresh : q.Fresh e.command) {id : String}
    {k : Job} (hk : (q.step e.command e.now e.reached).1.jobs.find? id = some k) :
    (∃ j, q.jobs.find? id = some j ∧ j.Follows k) ∨
      id ∈ e.command.submission?.toList.map Submission.id ∧ k.Measured := by
  cases hm : q.handed e.command e.now with
  | none =>
    rw [(step_of_not_handed hm e.reached).1] at hk
    exact .inl (evolves_kept q e.command id k hk)
  | some m =>
    rw [(step_of_handed hm e.reached).1] at hk
    have hp := h.handed fresh hm
    obtain ⟨j, hj, hjk⟩ := hp.evolves_dispatched (hp.dispatched e.now e.reached) id k hk
    generalize e.command = command at hm
    cases handed_cases hm with
    | admitted s =>
      change (Table.insert s.id _ q.jobs).find? id = some j at hj
      rw [Table.find?_insert] at hj
      split at hj
      · next he =>
        cases hj
        exact .inr ⟨by simp [Command.submission?, he], (hjk (Job.measured_queued _ _ _ _)).2⟩
      · exact .inl ⟨j, hj, hjk⟩
    | awaited worker current => exact .inl ⟨j, hj, hjk⟩
    | closed found ok =>
      obtain ⟨i, hi, hij⟩ := h.evolves_closed found ok id j hj
      exact .inl ⟨i, hi, hij.trans hjk⟩

end

/-! ### Histories -/

theorem measured_history {retained : Nat} {events : List Event} (fresh : FreshIds events)
    {id : String} {j : Job} (hj : (history retained events).queue.jobs.find? id = some j) :
    j.Measured := by
  induction events using List.reverseRecOn generalizing j with
  | nil =>
    change Table.find? [] id = some j at hj
    rw [Table.find?_nil] at hj
    cases hj
  | append_singleton events e ih =>
    rw [history_snoc] at hj
    have hs := sourced_history retained events fresh.of_snoc
    rcases hs.settled.step_follows (hs.fresh fresh) hj with ⟨i, hi, hij⟩ | ⟨_, hm⟩
    · exact (hij (ih fresh.of_snoc hi)).2
    · exact hm

theorem FreshIds.of_append {events more : List Event} (h : FreshIds (events ++ more)) :
    FreshIds events := by
  rw [FreshIds, submissions, List.filterMap_append, List.map_append] at h
  exact h.of_append_left

theorem FreshIds.take {events : List Event} (h : FreshIds events) (n : Nat) :
    FreshIds (events.take n) := by
  rw [← List.take_append_drop n events] at h
  exact h.of_append

theorem mem_submissions_append {events : List Event} {id : String}
    (h : id ∈ (submissions events).map Submission.id) (more : List Event) :
    id ∈ (submissions (events ++ more)).map Submission.id := by
  rw [submissions, List.filterMap_append, List.map_append]
  exact List.mem_append_left _ h

theorem FreshIds.not_resubmitted {events : List Event} {e : Event} (h : FreshIds (events ++ [e]))
    {id : String} (hid : id ∈ (submissions events).map Submission.id) :
    id ∉ e.command.submission?.toList.map Submission.id := by
  intro hnew
  rw [FreshIds, submissions_snoc, List.map_append, List.nodup_append] at h
  exact h.2.2 id hid id hnew rfl

/-- Once an id was submitted, a record under it is later than one that was there before. -/
theorem later_of_history {retained : Nat} {events more : List Event}
    (fresh : FreshIds (events ++ more)) {id : String}
    (hid : id ∈ (submissions events).map Submission.id) {k : Job}
    (hk : (history retained (events ++ more)).queue.jobs.find? id = some k) :
    ∃ j, (history retained events).queue.jobs.find? id = some j ∧ j.Later k := by
  -- on the last event: it cannot be the submission of the id, so it changes a record or none
  induction more using List.reverseRecOn generalizing k with
  | nil =>
    rw [List.append_nil] at hk
    exact ⟨k, hk, .refl k⟩
  | append_singleton more e ih =>
    rw [← List.append_assoc] at fresh hk
    rw [history_snoc] at hk
    have hs := sourced_history retained (events ++ more) fresh.of_snoc
    rcases hs.settled.step_follows (hs.fresh fresh) hk with ⟨i, hi, hik⟩ | ⟨hnew, _⟩
    · obtain ⟨j, hj, hji⟩ := ih fresh.of_snoc hi
      exact ⟨j, hj, hji.trans (hik (measured_history fresh.of_snoc hi)).1⟩
    · exact absurd hnew (fresh.not_resubmitted (mem_submissions_append hid more))

/-- The table that readers see after a number of events. -/
def published (retained : Nat) (events : List Event) (n : Nat) : Table Job :=
  (history retained (events.take n)).queue.jobs

/-- All tables that are published in the course of the events, the empty one first. -/
def publications (retained : Nat) (events : List Event) : List (Table Job) :=
  (List.range (events.length + 1)).map (published retained events)

theorem later_of_published {retained : Nat} {events : List Event} (fresh : FreshIds events)
    {m n : Nat} (hmn : m ≤ n) {id : String}
    (hid : id ∈ (submissions (events.take m)).map Submission.id) {k : Job}
    (hk : (published retained events n).find? id = some k) :
    ∃ j, (published retained events m).find? id = some j ∧ j.Later k := by
  obtain ⟨more, hmore⟩ : events.take m <+: events.take n := List.take_prefix_take_left hmn
  have hn := fresh.take n
  rw [← hmore] at hn
  rw [published, ← hmore] at hk
  exact later_of_history hn hid hk

theorem submitted_of_le {events : List Event} {m n : Nat} (hmn : m ≤ n) {id : String}
    (h : id ∈ (submissions (events.take m)).map Submission.id) :
    id ∈ (submissions (events.take n)).map Submission.id := by
  obtain ⟨more, hmore⟩ : events.take m <+: events.take n := List.take_prefix_take_left hmn
  rw [← hmore]
  exact mem_submissions_append h more

/-- A job that stands in a published table was submitted by then. -/
theorem submitted_of_published {retained : Nat} {events : List Event} (fresh : FreshIds events)
    {n : Nat} {id : String} {j : Job} (hj : (published retained events n).find? id = some j) :
    id ∈ (submissions (events.take n)).map Submission.id := by
  have hs := sourced_history retained (events.take n) (fresh.take n)
  exact hs.submitted id ((hs.settled.find?_isSome_iff id).1 (Option.isSome_of_mem hj))

/-- Tables seen one after the other were published in this order. -/
theorem exists_of_sublist_publications {retained : Nat} {events : List Event}
    {seen : List (Table Job)} (h : seen.Sublist (publications retained events)) :
    ∃ steps : List Nat, steps.Pairwise (· < ·) ∧ seen = steps.map (published retained events) := by
  obtain ⟨steps, hsteps, rfl⟩ := List.sublist_map_iff.1 h
  exact ⟨steps, List.pairwise_lt_range.sublist hsteps, rfl⟩

/-- Whatever part of the published tables a reader sees, in a history without a
repeated id: of two records of a job the one seen after the other is the later
one, and a job that was seen and is gone is not seen again. -/
theorem lifecycle_of_history (retained : Nat) (events : List Event) (fresh : FreshIds events)
    {seen : List (Table Job)} (hseen : seen.Sublist (publications retained events)) :
    (∀ t u, [t, u].Sublist seen →
      ∀ id j k, t.find? id = some j → u.find? id = some k → j.Later k) ∧
    ∀ t u v, [t, u, v].Sublist seen →
      ∀ id j, t.find? id = some j → u.find? id = none → v.find? id = none := by
  constructor
  · intro t u htu id j k hj hk
    obtain ⟨steps, hsteps, hmap⟩ := exists_of_sublist_publications (htu.trans hseen)
    match steps, hmap with
    | [m, n], hmap =>
      cases hmap
      have hmn : m < n := by simpa using hsteps
      obtain ⟨i, hi, hik⟩ := later_of_published fresh (Nat.le_of_lt hmn)
        (submitted_of_published fresh hj) hk
      cases hi.symm.trans hj
      exact hik
  · intro t u v htuv id j hj hu
    obtain ⟨steps, hsteps, hmap⟩ := exists_of_sublist_publications (htuv.trans hseen)
    match steps, hmap with
    | [l, m, n], hmap =>
      cases hmap
      have hlm : l < m ∧ m < n := by
        simp only [List.pairwise_cons, List.mem_cons] at hsteps
        exact ⟨hsteps.1 m (.inl rfl), hsteps.2.1 n (.inl rfl)⟩
      cases hv : (published retained events n).find? id with
      | none => rfl
      | some k =>
        have hid := submitted_of_le (Nat.le_of_lt hlm.1) (submitted_of_published fresh hj)
        obtain ⟨i, hi, _⟩ := later_of_published fresh (Nat.le_of_lt hlm.2) hid hv
        cases hu.symm.trans hi

/-- A reader looks before the first job ends, after it has ended, and at the end. -/
theorem lifecycle_of_threeJobs :
    FreshIds threeJobs ∧
    ((published 0 threeJobs 3).find? "b").map Job.status = some .queued ∧
    ((published 0 threeJobs 6).find? "b").map Job.status = some .running ∧
    (∀ j k, (published 0 threeJobs 3).find? "b" = some j →
      (published 0 threeJobs 6).find? "b" = some k → j.Later k) ∧
    ((published 0 threeJobs 3).find? "a").map Job.status = some .queued ∧
    ((published 0 threeJobs 4).find? "a").isNone = true ∧
    (published 0 threeJobs 6).find? "a" = none := by
  let seen := [3, 4, 6].map (published 0 threeJobs)
  have hseen : seen.Sublist (publications 0 threeJobs) :=
    List.Sublist.map _ (by decide : [3, 4, 6].Sublist (List.range 7))
  have hfresh : FreshIds threeJobs := by decide
  obtain ⟨hlater, hgone⟩ := lifecycle_of_history 0 threeJobs hfresh hseen
  have hnone : ((published 0 threeJobs 4).find? "a").isNone = true := by decide
  have hqueued : ((published 0 threeJobs 3).find? "a").map Job.status = some .queued := by decide
  obtain ⟨j, hj, _⟩ := Option.map_eq_some_iff.1 hqueued
  refine ⟨hfresh, by decide, by decide, ?_, hqueued, hnone, ?_⟩
  · exact hlater _ _ (.cons_cons _ (.cons _ (.refl _))) "b"
  · exact hgone _ _ _ (.refl _) "a" j hj (Option.isNone_iff_eq_none.1 hnone)

end RenderGateway.Queue
