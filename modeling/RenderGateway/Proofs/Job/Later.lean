import RenderGateway.Proofs.Job.Transition

/-!
# Earlier and later records of a job

`Later` is what may have happened between two looks at a record: the status went
on, progress grew, the job moved up in the line, and a terminal record stayed as
it was. `Follows` adds that the progress of a record keeps within its bounds,
without which the end of a job could set it back to 100. Whatever an operation
makes of a record follows it.
-/

namespace RenderGateway

/-- A status is followed by itself, a queued job by anything, a running one by its end. -/
inductive JobStatus.Onward : JobStatus → JobStatus → Prop
  | same (s : JobStatus) : Onward s s
  | leave (t : JobStatus) : Onward .queued t
  | finish {t : JobStatus} (h : t.isTerminal = true) : Onward .running t

theorem JobStatus.Onward.trans {s t u : JobStatus} (h : s.Onward t) (h' : t.Onward u) :
    s.Onward u := by
  cases h with
  | same => exact h'
  | leave => exact .leave u
  | finish ht =>
    cases h' with
    | same => exact .finish ht
    | leave | finish _ => cases ht

theorem JobStatus.onward_of_canBecome {s t : JobStatus} (h : s.canBecome t = true) :
    s.Onward t := by
  cases s with
  | queued => exact .leave t
  | running =>
    cases t with
    | done | error | partialSuccess => exact .finish rfl
    | queued | running => cases h
  | done | error | partialSuccess => cases t <;> cases h

namespace Job

/-- The second record was seen after the first one. -/
structure Later (j k : Job) : Prop where
  id_eq : k.id = j.id
  status : j.status.Onward k.status
  progress_le : j.progress ≤ k.progress
  position_le : k.queuePosition ≤ j.queuePosition
  eq_of_terminal : j.isTerminal = true → k = j

theorem Later.refl (j : Job) : j.Later j where
  id_eq := rfl
  status := .same _
  progress_le := UInt8.le_refl _
  position_le := UInt64.le_refl _
  eq_of_terminal _ := rfl

theorem Later.trans {j k l : Job} (h : j.Later k) (h' : k.Later l) : j.Later l where
  id_eq := h'.id_eq.trans h.id_eq
  status := h.status.trans h'.status
  progress_le := UInt8.le_trans h.progress_le h'.progress_le
  position_le := UInt64.le_trans h'.position_le h.position_le
  eq_of_terminal ht := by
    have hk := h.eq_of_terminal ht
    exact (h'.eq_of_terminal (hk ▸ ht)).trans hk

/-- The progress of the record is one that its status allows. -/
structure Measured (j : Job) : Prop where
  progress_le : j.progress ≤ 100
  progress_of_queued : j.status = .queued → j.progress = 0

theorem measured_queued (id : String) (plan : Plan) (position : UInt64) (now : Instant) :
    (queued id plan position now).Measured := ⟨by simp [queued], fun _ => rfl⟩

def Follows (j k : Job) : Prop := j.Measured → j.Later k ∧ k.Measured

theorem Follows.refl (j : Job) : j.Follows j := fun h => ⟨.refl j, h⟩

theorem Follows.trans {j k l : Job} (h : j.Follows k) (h' : k.Follows l) : j.Follows l := by
  intro hj
  obtain ⟨hk, hmeasured⟩ := h hj
  obtain ⟨hl, hlast⟩ := h' hmeasured
  exact ⟨hk.trans hl, hlast⟩

theorem not_isTerminal_of_alive {j : Job} (h : j.status = .queued ∨ j.status = .running) :
    j.isTerminal ≠ true := by
  rcases h with h | h <;> simp [isTerminal, h, JobStatus.isTerminal]

section

variable {j k : Job}

theorem follows_started (h : j.status = .queued) (now : Instant) : j.Follows (j.started now) := by
  intro hm
  have ht := not_isTerminal_of_alive (.inl h)
  refine ⟨⟨rfl, h ▸ .leave _, UInt8.le_refl _, UInt64.zero_le, fun h => absurd h ht⟩, ?_⟩
  exact ⟨hm.progress_le, nofun⟩

/-- A job that comes back to the front of the line. -/
theorem follows_queued (h : j.status = .queued) (plan : Plan) (now : Instant) :
    j.Follows (queued j.id plan 0 now) := by
  intro hm
  have ht := not_isTerminal_of_alive (.inl h)
  have hp : j.progress ≤ (queued j.id plan 0 now).progress := by
    rw [hm.progress_of_queued h]
    exact UInt8.zero_le
  exact ⟨⟨rfl, h ▸ .same _, hp, UInt64.zero_le, fun h => absurd h ht⟩, measured_queued _ _ _ _⟩

/-- A job of the line moves up. -/
theorem follows_repositioned (h : j.status = .queued) {position : UInt64}
    (hp : position ≤ j.queuePosition) : j.Follows { j with queuePosition := position } := by
  intro hm
  have ht := not_isTerminal_of_alive (.inl h)
  exact ⟨⟨rfl, .same _, UInt8.le_refl _, hp, fun h => absurd h ht⟩,
    hm.progress_le, hm.progress_of_queued⟩

theorem progress_le_setProgress (a percent : UInt8) : a ≤ max a (min percent 99) := by
  change a ≤ if a ≤ min percent 99 then min percent 99 else a
  split
  · next h => exact h
  · exact UInt8.le_refl a

theorem setProgress_progress_le {a bound : UInt8} (h : a ≤ bound) (hbound : 99 ≤ bound)
    (percent : UInt8) : max a (min percent 99) ≤ bound := by
  have hmin : min percent 99 ≤ bound := by
    change (if percent ≤ 99 then percent else 99) ≤ bound
    split
    · next hp => exact UInt8.le_trans hp hbound
    · exact hbound
  change (if a ≤ min percent 99 then min percent 99 else a) ≤ bound
  split
  · exact hmin
  · exact h

/-- A running job that keeps running at its place. -/
theorem follows_of_running (h : j.status = .running) (hid : k.id = j.id)
    (hs : k.status = j.status) (hq : k.queuePosition = j.queuePosition)
    (hle : j.progress ≤ k.progress) (hp : j.progress ≤ 100 → k.progress ≤ 100) :
    j.Follows k := by
  intro hm
  have ht := not_isTerminal_of_alive (.inr h)
  refine ⟨⟨hid, hs ▸ .same _, hle, hq ▸ UInt64.le_refl _, fun h => absurd h ht⟩, ?_⟩
  exact ⟨hp hm.progress_le, fun hk => by simp [hs, h] at hk⟩

theorem follows_updated (j : Job) (u : JobUpdate) : j.Follows (j.updated u) := by
  cases h : j.apply u with
  | error r =>
    have hsame : j.updated u = j := by simp [updated, h, Except.toOption]
    rw [hsame]
    exact .refl j
  | ok k =>
    rw [updated_eq_of_apply h]
    obtain ⟨hs, rfl⟩ := apply_ok h
    cases u with
    | route | logs => exact follows_of_running hs rfl rfl rfl (UInt8.le_refl _) fun hle => hle
    | progress p =>
      exact follows_of_running hs rfl rfl rfl (progress_le_setProgress _ p)
        fun hle => setProgress_progress_le hle (by decide) p

theorem follows_of_finish {outcome : JobOutcome} {now : Instant}
    (h : j.finish outcome now = .ok k) : j.Follows k := by
  intro hm
  have hend := ended_of_finish h
  have hposition : k.queuePosition ≤ j.queuePosition := by
    rcases hend.position with hz | ⟨_, hz⟩
    · rw [hz]
      exact UInt64.zero_le
    · rw [hz]
      exact UInt64.le_refl _
  have hnot : k.status ≠ .queued := by
    intro hk
    have ht := hend.terminal
    rw [isTerminal, hk] at ht
    cases ht
  have hprogress : j.status.Onward k.status ∧ j.progress ≤ k.progress ∧ k.progress ≤ 100 := by
    cases outcome with
    | rendered output =>
      obtain ⟨hc, rfl⟩ := become_then_ok h
      exact ⟨JobStatus.onward_of_canBecome hc, hm.progress_le, UInt8.le_refl _⟩
    | failed fault =>
      obtain ⟨hc, rfl⟩ := become_then_ok h
      exact ⟨JobStatus.onward_of_canBecome hc, UInt8.le_refl _, hm.progress_le⟩
    | settled artifacts =>
      obtain ⟨hc, rfl⟩ := become_then_ok h
      exact ⟨JobStatus.onward_of_canBecome hc, hm.progress_le, UInt8.le_refl _⟩
  obtain ⟨hstatus, hle, hbound⟩ := hprogress
  have ht := not_isTerminal_of_alive hend.alive
  exact ⟨⟨hend.id_eq, hstatus, hle, hposition, fun h => absurd h ht⟩,
    hbound, fun hk => absurd hk hnot⟩

end

end Job

end RenderGateway
