import RenderGateway.Proofs.Queue.History

/-!
# What becomes of a claim

A worker that asks for a job waits in the one place there is until a step ends its claim. `Ends`
lists the ways: it is served, it is sent away because a job runs, it gives up, or the next worker
takes its place. The last is told to it as the end of the queue, which however goes on.
-/

namespace RenderGateway.Queue

/-- The worker of a claim. -/
def Command.claimer? : Command → Option Nat
  | .claim worker => some worker
  | _ => none

/-- The workers of the claims among the events, in order. -/
def claimers (events : List Event) : List Nat := events.filterMap fun e => e.command.claimer?

/-- What is told to a worker, in order. -/
def answersTo (worker : Nat) (notices : List Notice) : List (Except QueueError ClaimedJob) :=
  notices.filterMap fun n => n.answered?.bind fun answer =>
    if answer.1 = worker then some answer.2 else none

/-- The worker waits and is there. -/
def Waits (q : Queue) (worker : Nat) : Prop := q.waiting = some ⟨worker, true⟩

/-- A worker leaves the waiting place, or is away when it would be served. -/
def GivesUp (q : Queue) (e : Event) (worker : Nat) : Prop :=
  (e.command = .leave worker ∧ q.Waits worker) ∨
    (e.reached = false ∧
      ∃ claimed, .answered worker (.ok claimed) ∈ (q.step e.command e.now true).2)

/-- The ways in which a step ends the claim of a worker, with what is told to it. -/
inductive Ends (q : Queue) (e : Event) (worker : Nat) : List (Except QueueError ClaimedJob) → Prop
  | served (claimed : ClaimedJob) (reached : e.reached = true) : Ends q e worker [.ok claimed]
  | busy {id : String} (own : e.command = .claim worker) (current : q.current = some id) :
      Ends q e worker [.error (.busy id)]
  | gaveUp (givesUp : q.GivesUp e worker) : Ends q e worker []
  | displaced {other : Nat} (claim : e.command = .claim other) (waits : q.Waits worker) :
      Ends q e worker [.error .stopped]

/-- What the dispatcher does with the waiting place, whatever state it is given. -/
inductive Attended (q : Queue) (now : Instant) : Bool → Queue → List Notice → Prop
  | idle {reached : Bool} {r : Queue} (waiting : r.waiting = q.waiting)
      (current : r.current = q.current) : Attended q now reached r []
  | left {reached : Bool} {r : Queue} {worker : Nat} (waited : q.waiting = some ⟨worker, false⟩)
      (waiting : r.waiting = none) : Attended q now reached r []
  | answered {r : Queue} {worker : Nat} (claimed : ClaimedJob) (waits : q.Waits worker)
      (waiting : r.waiting = none) : Attended q now true r [.answered worker (.ok claimed)]
  | missed {r : Queue} {worker : Nat} {claimed : ClaimedJob} (waits : q.Waits worker)
      (waiting : r.waiting = none)
      (reached : (q.dispatch now true).2 = [.answered worker (.ok claimed)]) :
      Attended q now false r []

/-- What a command tells to the one who waits, before the dispatcher does anything. -/
def dismissed (q : Queue) : Command → List Notice
  | .claim _ => q.displaced
  | _ => []

section

variable {q m : Queue} {worker : Nat} {command : Command} {e : Event}

theorem Waits.unique {other : Nat} (h : q.Waits worker) (h' : q.Waits other) : worker = other := by
  cases h.symm.trans h'
  rfl

theorem not_waits_of_none (h : q.waiting = none) (worker : Nat) : ¬ q.Waits worker := fun hw => by
  cases h.symm.trans hw

theorem waits_awaited {other : Nat} : (q.awaited other).Waits worker ↔ other = worker := by
  simp [Waits, awaited]

theorem answersTo_append (worker : Nat) (xs ys : List Notice) :
    answersTo worker (xs ++ ys) = answersTo worker xs ++ answersTo worker ys :=
  List.filterMap_append

@[simp]
theorem answersTo_answered (worker other : Nat) (result : Except QueueError ClaimedJob) :
    answersTo worker [.answered other result] = if other = worker then [result] else [] := by
  by_cases h : other = worker <;> simp [answersTo, Notice.answered?, h]

@[simp]
theorem answersTo_queued (worker : Nat) (job : Job) : answersTo worker [.queued job] = [] := rfl

@[simp]
theorem answersTo_finished (worker : Nat) (result : Except QueueError Job) :
    answersTo worker [.finished result] = [] := rfl

theorem mem_answersTo {notices : List Notice} {result : Except QueueError ClaimedJob} :
    result ∈ answersTo worker notices ↔ .answered worker result ∈ notices := by
  simp only [answersTo, List.mem_filterMap]
  constructor
  · rintro ⟨n, hn, hr⟩
    cases n with
    | answered other answer =>
      by_cases h : other = worker
      · subst h
        simp only [Notice.answered?, Option.bind_some, if_true, Option.some.injEq] at hr
        exact hr ▸ hn
      · simp [Notice.answered?, h] at hr
    | queued _ | finished _ => simp [Notice.answered?] at hr
  · exact fun hn => ⟨_, hn, by simp [Notice.answered?]⟩

/-! ### The dispatcher and the waiting place -/

theorem takeNext_frame (q : Queue) (now : Instant) (ids : List String) :
    (q.takeNext now ids).1.waiting = q.waiting ∧ (q.takeNext now ids).1.current = q.current := by
  induction ids generalizing q with
  | nil => exact ⟨rfl, rfl⟩
  | cons id rest ih =>
    unfold takeNext
    split
    · split
      · exact ⟨rfl, rfl⟩
      · exact ih _
    · exact ih _

theorem attended (q : Queue) (now : Instant) (reached : Bool) :
    Attended q now reached (q.dispatch now reached).1 (q.dispatch now reached).2 := by
  cases hc : q.current with
  | some id =>
    rw [dispatch_of_busy now reached hc]
    exact .idle rfl rfl
  | none =>
    cases hw : q.waiting with
    | none =>
      rw [dispatch_of_not_waiting now reached hw]
      exact .idle rfl rfl
    | some w =>
      obtain ⟨worker, present⟩ := w
      cases present with
      | false =>
        rw [dispatch_of_left now reached hc hw]
        exact .left hw rfl
      | true =>
        obtain ⟨hwaiting, hcurrent⟩ := takeNext_frame { q with waiting := none } now q.pending
        obtain ⟨⟨next, found⟩, hn⟩ :
            ∃ next, ({ q with waiting := none } : Queue).takeNext now q.pending = next := ⟨_, rfl⟩
        rw [hn] at hwaiting hcurrent
        have hd := fun reached => dispatch_of_waiting now reached hc hw hn
        cases found with
        | none =>
          rw [hd]
          exact .idle hw.symm hcurrent
        | some entry =>
          cases reached with
          | true =>
            rw [hd]
            exact .answered _ hw hwaiting
          | false =>
            rw [hd]
            exact .missed hw hwaiting (by rw [hd]; rfl)

/-- The dispatcher has nothing to tell to a worker that does not wait. -/
theorem Attended.of_away {r : Queue} {now : Instant} {reached : Bool} {notices : List Notice}
    (h : Attended q now reached r notices) (away : ¬ q.Waits worker) :
    ¬ r.Waits worker ∧ answersTo worker notices = [] := by
  cases h with
  | idle waiting current => exact ⟨fun h => away (waiting.symm.trans h), rfl⟩
  | left waited waiting => exact ⟨not_waits_of_none waiting worker, rfl⟩
  | @answered _ other claimed waits waiting =>
    have hne : other ≠ worker := fun h => away (h ▸ waits)
    exact ⟨not_waits_of_none waiting worker, by simp [hne]⟩
  | missed waits waiting reached => exact ⟨not_waits_of_none waiting worker, rfl⟩

/-- A worker that waits goes on waiting, or it is served, or it has gone when it would be. -/
theorem Attended.of_waits {r : Queue} {now : Instant} {reached : Bool} {notices : List Notice}
    (h : Attended q now reached r notices) (waits : q.Waits worker) :
    (r.Waits worker ∧ answersTo worker notices = []) ∨
      (¬ r.Waits worker ∧ ∃ claimed,
        (reached = true ∧ answersTo worker notices = [.ok claimed]) ∨
        (reached = false ∧ answersTo worker notices = [] ∧
          .answered worker (.ok claimed) ∈ (q.dispatch now true).2)) := by
  cases h with
  | idle waiting current => exact .inl ⟨waiting.trans waits, rfl⟩
  | left waited waiting => cases waited.symm.trans waits
  | answered claimed waits' waiting =>
    cases waits'.unique waits
    exact .inr ⟨not_waits_of_none waiting worker, claimed, .inl ⟨rfl, by simp⟩⟩
  | @missed _ _ claimed waits' waiting hreached =>
    cases waits'.unique waits
    exact .inr ⟨not_waits_of_none waiting worker, claimed, .inr ⟨rfl, rfl, by simp [hreached]⟩⟩

/-! ### One step -/

theorem answersTo_of_handed {now : Instant} (hm : q.handed command now = some m) (worker : Nat)
    (reached : Bool) :
    answersTo worker (q.step command now reached).2 =
      answersTo worker (q.dismissed command) ++ answersTo worker (m.dispatch now reached).2 := by
  cases handed_cases hm with
  | admitted s =>
    obtain ⟨job, he⟩ := q.enqueue_eq s now reached
    rw [step, he, answersTo_append, answersTo_queued, List.append_nil]
    rfl
  | awaited other current =>
    rw [step, claim_of_idle current]
    exact answersTo_append worker _ _
  | closed found ok =>
    rw [step, finish_of_ended found ok, answersTo_append, answersTo_finished, List.append_nil]
    rfl

theorem answersTo_of_not_handed {now : Instant} (hm : q.handed command now = none) (worker : Nat)
    (reached : Bool) :
    answersTo worker (q.step command now reached).2 = [] ∨
      ∃ id, command = .claim worker ∧ q.current = some id ∧
        answersTo worker (q.step command now reached).2 = [.error (.busy id)] := by
  cases command with
  | enqueue s => cases hm
  | claim other =>
    cases hc : q.current with
    | none => simp [handed, hc] at hm
    | some id =>
      rw [step, claim_of_current hc, answersTo_answered]
      by_cases ho : other = worker
      · exact .inr ⟨id, ho ▸ rfl, rfl, if_pos ho⟩
      · exact .inl (if_neg ho)
  | leave other => exact .inl rfl
  | update id u => exact .inl rfl
  | finish id outcome =>
    left
    obtain ⟨error, he⟩ := finish_of_not_handed hm reached
    rw [step, he]
    exact answersTo_finished worker _

/-- After a claim its own worker waits, and else whoever waited before. -/
theorem Handed.waits_iff {now : Instant} (h : Handed q now command m) :
    m.Waits worker ↔
      command = .claim worker ∨ (q.Waits worker ∧ ∀ other, command ≠ .claim other) := by
  cases h with
  | admitted s => simp [Waits, Queue.admitted]
  | awaited other current => simp [waits_awaited]
  | closed found ok => simp [Waits, Queue.closed, Queue.evict, Queue.reposition]

theorem kept_waits_iff (q : Queue) (command : Command) (worker : Nat) :
    (q.kept command).Waits worker ↔ q.Waits worker ∧ command ≠ .leave worker := by
  cases command with
  | leave other =>
    change (q.leave other).Waits worker ↔ _
    simp only [Queue.leave, ne_eq, Command.leave.injEq]
    split
    · next w hw =>
      split
      · next ho =>
        -- the place is kept for one who is there no more
        have hnot : q.Waits worker → other = worker := fun h => by
          cases hw.symm.trans h
          exact ho.symm
        simp only [Waits, Option.some.injEq, Waiting.mk.injEq, Bool.false_eq_true, and_false,
          false_iff, not_and, not_not]
        exact hnot
      · next ho =>
        refine ⟨fun h => ⟨h, fun he => ho ?_⟩, And.left⟩
        cases hw.symm.trans h
        exact he.symm
    · next hw => exact ⟨fun h => absurd h (not_waits_of_none hw worker), And.left⟩
  | enqueue _ | claim _ | update _ _ | finish _ _ => simp [kept, Waits, Queue.update]

theorem answersTo_dismissed (h : q.Waits worker → ∀ other, command ≠ .claim other) :
    answersTo worker (q.dismissed command) = [] := by
  unfold dismissed displaced
  split
  · next v =>
    split
    · next other hw =>
      have hne : other ≠ worker := fun ho => h (ho ▸ hw) v rfl
      simp [hne]
    · rfl
  · rfl

theorem answersTo_dismissed_claim (waits : q.Waits worker) (other : Nat) :
    answersTo worker (q.dismissed (.claim other)) = [.error .stopped] := by
  simp [dismissed, displaced, show q.waiting = _ from waits]

/-- The step of an event leaves the worker waiting, or ends its claim. -/
def Decides (q : Queue) (e : Event) (worker : Nat) : Prop :=
  ((q.step e.command e.now e.reached).1.Waits worker ∧
      answersTo worker (q.step e.command e.now e.reached).2 = []) ∨
    (¬ (q.step e.command e.now e.reached).1.Waits worker ∧
      q.Ends e worker (answersTo worker (q.step e.command e.now e.reached).2))

/-- If the dispatcher finds the worker waiting, nothing else concerns it in the step. -/
theorem decides_of_handed (hm : q.handed e.command e.now = some m) (waits : m.Waits worker)
    (quiet : answersTo worker (q.dismissed e.command) = []) : q.Decides e worker := by
  have hanswers := answersTo_of_handed hm worker
  simp only [quiet, List.nil_append] at hanswers
  rw [Decides, (step_of_handed hm e.reached).1, hanswers]
  rcases (attended m e.now e.reached).of_waits waits with h | ⟨away, claimed, h | h⟩
  · exact .inl h
  · exact .inr ⟨away, h.2 ▸ .served claimed h.1⟩
  · have hmissed : q.GivesUp e worker :=
      .inr ⟨h.1, claimed, by rw [← mem_answersTo, hanswers, mem_answersTo]; exact h.2.2⟩
    exact .inr ⟨away, h.2.1 ▸ .gaveUp hmissed⟩

theorem decides_of_claim (own : e.command = .claim worker) (away : ¬ q.Waits worker) :
    q.Decides e worker := by
  cases hm : q.handed e.command e.now with
  | some m =>
    exact decides_of_handed hm ((handed_cases hm).waits_iff.2 (.inl own))
      (answersTo_dismissed fun h => absurd h away)
  | none =>
    cases hc : q.current with
    | none => simp [own, handed, hc] at hm
    | some id =>
      right
      rw [own, step, claim_of_current hc, answersTo_answered, if_pos rfl]
      exact ⟨away, .busy own hc⟩

theorem decides_of_waits (waits : q.Waits worker) (other : e.command ≠ .claim worker) :
    q.Decides e worker := by
  cases hm : q.handed e.command e.now with
  | some m =>
    by_cases hclaim : ∃ v, e.command = .claim v
    · obtain ⟨v, hv⟩ := hclaim
      have haway : ¬ m.Waits worker := mt (handed_cases hm).waits_iff.1 fun h =>
        h.elim other fun h => h.2 v hv
      have hd := (attended m e.now e.reached).of_away haway
      right
      rw [(step_of_handed hm e.reached).1, answersTo_of_handed hm, hd.2, hv,
        answersTo_dismissed_claim waits]
      exact ⟨hd.1, .displaced hv waits⟩
    · push Not at hclaim
      exact decides_of_handed hm ((handed_cases hm).waits_iff.2 (.inr ⟨waits, hclaim⟩))
        (answersTo_dismissed fun _ => hclaim)
  | none =>
    have hanswers : answersTo worker (q.step e.command e.now e.reached).2 = [] := by
      rcases answersTo_of_not_handed hm worker e.reached with h | ⟨id, own, _, _⟩
      · exact h
      · exact absurd own other
    rw [Decides, (step_of_not_handed hm e.reached).1, hanswers, kept_waits_iff]
    by_cases hleave : e.command = .leave worker
    · exact .inr ⟨fun h => h.2 hleave, .gaveUp (.inl ⟨hleave, waits⟩)⟩
    · exact .inl ⟨⟨waits, hleave⟩, rfl⟩

/-- A worker that neither waits nor claims is not concerned. -/
theorem step_of_away (away : ¬ q.Waits worker) (other : e.command ≠ .claim worker) :
    ¬ (q.step e.command e.now e.reached).1.Waits worker ∧
      answersTo worker (q.step e.command e.now e.reached).2 = [] := by
  cases hm : q.handed e.command e.now with
  | some m =>
    have haway : ¬ m.Waits worker := mt (handed_cases hm).waits_iff.1 fun h =>
      h.elim other fun h => away h.1
    rw [(step_of_handed hm e.reached).1, answersTo_of_handed hm,
      answersTo_dismissed fun h => absurd h away]
    exact (attended m e.now e.reached).of_away haway
  | none =>
    rw [(step_of_not_handed hm e.reached).1, kept_waits_iff]
    refine ⟨fun h => away h.1, ?_⟩
    rcases answersTo_of_not_handed hm worker e.reached with h | ⟨id, own, _, _⟩
    · exact h
    · exact absurd own other

/-- Nobody waits while a job runs. -/
def Idles (q : Queue) : Prop := ∀ worker, q.Waits worker → q.current = none

theorem Idles.handed (h : q.Idles) {now : Instant} (hm : Handed q now command m) : m.Idles := by
  cases hm with
  | admitted s => exact h
  | awaited _ current => exact fun _ _ => current
  | @closed id _ _ _ _ _ =>
    intro worker waits
    change (if q.current = some id then none else q.current) = none
    rw [h worker waits, if_neg nofun]

theorem Idles.attended (h : q.Idles) {r : Queue} {now : Instant} {reached : Bool}
    {notices : List Notice} (ha : Attended q now reached r notices) : r.Idles := by
  intro worker waits
  cases ha with
  | idle waiting current => exact current.trans (h worker (waiting.symm.trans waits))
  | left _ waiting | answered _ _ waiting | missed _ waiting _ =>
    exact absurd waits (not_waits_of_none waiting worker)

theorem Idles.step (h : q.Idles) (e : Event) :
    (q.step e.command e.now e.reached).1.Idles := by
  cases hm : q.handed e.command e.now with
  | some m =>
    rw [(step_of_handed hm e.reached).1]
    exact (h.handed (handed_cases hm)).attended (Queue.attended m e.now e.reached)
  | none =>
    intro worker waits
    rw [(step_of_not_handed hm e.reached).1] at waits ⊢
    obtain ⟨jobs, waiting, hkept⟩ := q.kept_eq e.command
    rw [hkept]
    exact h worker ((kept_waits_iff q e.command worker).1 waits).1

/-- A worker is told of the end of the queue if another one claims while it waits. -/
theorem Idles.stopped_mem_step_iff (h : q.Idles) (e : Event) (worker : Nat) :
    .answered worker (.error .stopped) ∈ (q.step e.command e.now e.reached).2 ↔
      (∃ other, e.command = .claim other) ∧ q.Waits worker := by
  rw [← mem_answersTo]
  cases hm : q.handed e.command e.now with
  | some m =>
    have hdispatch : .error .stopped ∉ answersTo worker (m.dispatch e.now e.reached).2 := by
      rw [mem_answersTo]
      intro hn
      obtain ⟨_, _, hn⟩ := exists_of_mem_dispatch hn
      cases hn
    rw [answersTo_of_handed hm, List.mem_append, or_iff_left hdispatch]
    by_cases hboth : (∃ other, e.command = .claim other) ∧ q.Waits worker
    · obtain ⟨⟨other, hother⟩, waits⟩ := hboth
      rw [hother, answersTo_dismissed_claim waits]
      simp [waits]
    · rw [answersTo_dismissed fun waits other hother => hboth ⟨⟨other, hother⟩, waits⟩]
      simp [hboth]
  | none =>
    have hbusy : ¬ ((∃ other, e.command = .claim other) ∧ q.Waits worker) := by
      rintro ⟨⟨other, hother⟩, waits⟩
      simp [hother, Queue.handed, h worker waits] at hm
    rw [iff_false_right hbusy]
    rcases answersTo_of_not_handed hm worker e.reached with hn | ⟨id, _, _, hn⟩
    · simp [hn]
    · simp [hn]

end

/-! ### All histories -/

theorem claimers_snoc (events : List Event) (e : Event) :
    claimers (events ++ [e]) = claimers events ++ e.command.claimer?.toList := by
  simp only [claimers, List.filterMap_append]
  cases h : e.command.claimer? <;> simp [h]

theorem Command.claimer?_eq_some_iff {command : Command} {worker : Nat} :
    command.claimer? = some worker ↔ command = .claim worker := by
  cases command <;> simp [Command.claimer?]

theorem mem_claimers_snoc {events : List Event} {e : Event} {worker : Nat} :
    worker ∈ claimers (events ++ [e]) ↔ worker ∈ claimers events ∨ e.command = .claim worker := by
  rw [claimers_snoc, List.mem_append, Option.mem_toList, Command.claimer?_eq_some_iff]

variable {retained : Nat} {events : List Event} {worker : Nat}

theorem idles_history (retained : Nat) (events : List Event) :
    (history retained events).queue.Idles := by
  induction events using List.reverseRecOn with
  | nil => exact fun _ waits => by cases waits
  | append_singleton events e ih =>
    rw [history_snoc]
    exact ih.step e

/-- Nothing is told to a worker before it claims. -/
theorem quiet_of_not_claimed (retained : Nat) (h : worker ∉ claimers events) :
    ¬ (history retained events).queue.Waits worker ∧
      answersTo worker (notices retained events) = [] := by
  induction events using List.reverseRecOn with
  | nil => exact ⟨not_waits_of_none rfl worker, rfl⟩
  | append_singleton events e ih =>
    rw [mem_claimers_snoc, not_or] at h
    obtain ⟨haway, hanswers⟩ := ih h.1
    have hstep := step_of_away haway h.2
    rw [history_snoc, notices_snoc, answersTo_append, hanswers, hstep.2]
    exact ⟨hstep.1, rfl⟩

/-- Some event of the history finds the queue in such a state. -/
def Happens (retained : Nat) (events : List Event) (P : Queue → Event → Prop) : Prop :=
  ∃ before e after, events = before ++ e :: after ∧ P (history retained before).queue e

theorem happens_snoc {e : Event} {P : Queue → Event → Prop} :
    Happens retained (events ++ [e]) P ↔
      Happens retained events P ∨ P (history retained events).queue e := by
  constructor
  · rintro ⟨before, first, after, hsplit, hp⟩
    rcases List.eq_nil_or_concat after with rfl | ⟨middle, last, rfl⟩
    · obtain ⟨rfl, he⟩ := List.append_inj' hsplit rfl
      cases he
      exact .inr hp
    · rw [List.concat_eq_append, ← List.cons_append, ← List.append_assoc] at hsplit
      exact .inl ⟨before, first, middle, (List.append_inj' hsplit rfl).1, hp⟩
  · rintro (⟨before, first, after, rfl, hp⟩ | hp)
    · exact ⟨before, first, after ++ [e], by simp, hp⟩
    · exact ⟨events, e, [], rfl, hp⟩

theorem stopped_mem_notices_iff (retained : Nat) (events : List Event) (worker : Nat) :
    .answered worker (.error .stopped) ∈ notices retained events ↔
      Happens retained events fun q e => (∃ other, e.command = .claim other) ∧ q.Waits worker := by
  induction events using List.reverseRecOn with
  | nil =>
    refine ⟨fun h => absurd h List.not_mem_nil, ?_⟩
    rintro ⟨before, e, after, hsplit, _⟩
    simp at hsplit
  | append_singleton events e ih =>
    rw [notices_snoc, List.mem_append, ih, happens_snoc,
      (idles_history retained events).stopped_mem_step_iff]

/-- Where each claim has its own worker, a claim waits, or an event has ended it and told to its
worker what the end is. The queue that goes on tells a worker of its end exactly if another worker
claims while this one waits. -/
theorem ends_of_claim (retained : Nat) (events : List Event) (distinct : (claimers events).Nodup) :
    (∀ worker ∈ claimers events,
      ((history retained events).queue.Waits worker ∧
          answersTo worker (notices retained events) = []) ∨
        (¬ (history retained events).queue.Waits worker ∧
          Happens retained events fun q e =>
            q.Ends e worker (answersTo worker (notices retained events)))) ∧
    ∀ worker, .answered worker (.error .stopped) ∈ notices retained events ↔
      Happens retained events fun q e =>
        (∃ other, e.command = .claim other) ∧ q.Waits worker := by
  refine ⟨?_, stopped_mem_notices_iff retained events⟩
  induction events using List.reverseRecOn with
  | nil => exact fun worker hw => absurd hw List.not_mem_nil
  | append_singleton events e ih =>
    intro worker hw
    rw [claimers_snoc, List.nodup_append] at distinct
    obtain ⟨hdistinct, -, hnew⟩ := distinct
    rw [history_snoc, notices_snoc, answersTo_append, happens_snoc]
    by_cases own : e.command = .claim worker
    · have hunseen : worker ∉ claimers events := fun h => hnew worker h worker
        (Option.mem_toList.2 (Command.claimer?_eq_some_iff.2 own)) rfl
      obtain ⟨haway, hanswers⟩ := quiet_of_not_claimed retained hunseen
      rw [hanswers, List.nil_append]
      exact (decides_of_claim own haway).imp_right (And.imp_right .inr)
    · have hseen := (mem_claimers_snoc.1 hw).resolve_right own
      rcases ih hdistinct worker hseen with ⟨waits, hanswers⟩ | ⟨haway, hended⟩
      · rw [hanswers, List.nil_append]
        exact (decides_of_waits waits own).imp_right (And.imp_right .inr)
      · obtain ⟨haway', hquiet⟩ := step_of_away haway own
        rw [hquiet, List.append_nil]
        exact .inr ⟨haway', .inl hended⟩

/-- Two workers claim while there is no job. -/
def twoClaims : List Event := [⟨.claim 1, default, true⟩, ⟨.claim 2, default, true⟩]

theorem ends_of_twoClaims :
    (claimers twoClaims).Nodup ∧ 1 ∈ claimers twoClaims ∧
      Happens 1 twoClaims fun q e => (∃ other, e.command = .claim other) ∧ q.Waits 1 :=
  ⟨by decide, by decide,
    ((ends_of_claim 1 twoClaims (by decide)).2 1).1 (show _ ∈ [_] from List.mem_cons_self)⟩

/-- The first worker does not give up, and yet it is told of the end of a queue that goes on. -/
theorem stopped_of_twoClaims :
    ¬ Happens 1 twoClaims (fun q e => q.GivesUp e 1) ∧
      answersTo 1 (notices 1 twoClaims) = [.error .stopped] ∧
      ¬ (history 1 twoClaims).queue.Waits 1 ∧ (history 1 twoClaims).queue.Waits 2 := by
  have hwaits : (history 1 twoClaims).queue.Waits 2 := rfl
  refine ⟨?_, rfl, fun h => absurd (h.unique hwaits) (by decide), hwaits⟩
  rintro ⟨before, e, after, hsplit, hgives⟩
  have he : e ∈ twoClaims := hsplit ▸ List.mem_append_right _ List.mem_cons_self
  simp only [twoClaims, List.mem_cons, List.not_mem_nil, or_false] at he
  rcases hgives with ⟨hleave, _⟩ | ⟨hreached, _⟩
  · rcases he with rfl | rfl <;> cases hleave
  · rcases he with rfl | rfl <;> cases hreached

end RenderGateway.Queue
