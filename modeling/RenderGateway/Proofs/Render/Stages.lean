import RenderGateway.Proofs.Render.Fetching

/-!
# Stages of the work on a job

A stage goes on, or it gives the job up. A stage that goes on has left records of retries only; one
that gives up has left one more record, whose fault is the end of the work.
-/

namespace RenderGateway

namespace WorkState

/-- A stretch after which the work goes on. -/
structure GoesOn (s s' : WorkState) (calls : List Call) (records : List FailureRecord) : Prop where
  grows : s.Grows s' calls records
  named : ∀ r ∈ records, r.jobId = s.job.id
  retried : ∀ r ∈ records, r.IsRetried

/-- A stretch that ends with the fault on record last. -/
structure GivesUp (s s' : WorkState) (calls : List Call) (earlier : List FailureRecord)
    (r : FailureRecord) : Prop where
  grows : s.Grows s' calls (earlier ++ [r])
  named : ∀ r' ∈ earlier ++ [r], r'.jobId = s.job.id
  retried : ∀ r' ∈ earlier, r'.IsRetried
  given_up : r.recovery = .abort

variable {s s' t : WorkState} {calls later : List Call} {records others : List FailureRecord}
  {r : FailureRecord}

theorem Grows.goesOn (h : s.Grows s' calls []) : s.GoesOn s' calls [] := ⟨h, by simp, by simp⟩

namespace GoesOn

theorem going (h : s.GoesOn s' calls records) (going : s.traces.stopping = false) :
    s'.traces.stopping = false := h.grows.stopping_eq.trans going

theorem named_later (h : s.GoesOn s' calls records) (named : ∀ r ∈ others, r.jobId = s'.job.id) :
    ∀ r ∈ records ++ others, r.jobId = s.job.id :=
  List.forall_mem_append.2 ⟨h.named, fun r hr => (named r hr).trans h.grows.id_eq⟩

theorem givesUp (h : s.GoesOn s' calls records) (h' : s'.GivesUp t later others r) :
    s.GivesUp t (calls ++ later) (records ++ others) r where
  grows := by
    rw [List.append_assoc]
    exact h.grows.trans h'.grows
  named := by
    rw [List.append_assoc]
    exact h.named_later h'.named
  retried := List.forall_mem_append.2 ⟨h.retried, h'.retried⟩
  given_up := h'.given_up

end GoesOn

end WorkState

namespace Work

variable {w : Workshop} {s : WorkState} {α ε : Type}

/-- Only downloads are retried; any other failure is the end. -/
theorem run_abort_givesUp (stage : Stage) {e : RenderFailure} (he : e.isRetryable = false) :
    ∃ s' r, (abort w stage e : Work α).run s = (.error (.failed r.fault), s') ∧
      s.GivesUp s' [] [] r := by
  have hfinal : ¬ e.IsTransient := by
    rw [← RenderFailure.isRetryable_iff, he]
    decide
  obtain ⟨s', hrun, hgrows⟩ : ∃ s', (abort w stage e : Work α).run s =
      (.error (.failed (recordOf w s e stage 1).fault), s') ∧ _ := run_abort s stage e
  refine ⟨s', _, hrun, hgrows, ?_, by simp, RenderFailure.recovery_of_not_transient hfinal _ _⟩
  rw [List.nil_append, List.forall_mem_singleton]
  rfl

/-- A stage yields what it asked for, or gives up because of its error. -/
theorem run_orAbort (stage : Stage) (x : Except ε α) {failure : ε → RenderFailure}
    (final : ∀ e, (failure e).isRetryable = false) (s : WorkState) :
    (∃ a, x = .ok a ∧ (orAbort w stage x failure).run s = (.ok a, s)) ∨
      ∃ e s' r, x = .error e ∧
        (orAbort w stage x failure).run s = (.error (.failed r.fault), s') ∧
        s.GivesUp s' [] [] r := by
  cases x with
  | ok a => exact .inl ⟨a, rfl, rfl⟩
  | error e =>
    obtain ⟨s', r, hrun, hends⟩ : ∃ s' r, (abort w stage (failure e) : Work α).run s =
      (.error (.failed r.fault), s') ∧ s.GivesUp s' [] [] r := run_abort_givesUp stage (final e)
    exact .inr ⟨e, s', r, rfl, hrun, hends⟩

theorem run_sends (tireless : w.Tireless) (us : List JobUpdate) (s : WorkState) :
    ∃ s', (forIn us PUnit.unit fun u _ => do
        send w u
        pure (.yield PUnit.unit) : Work PUnit).run s = (.ok PUnit.unit, s') ∧
      s.Grows s' [] [] := by
  induction us generalizing s with
  | nil => exact ⟨s, rfl, .refl s⟩
  | cons u us ih =>
    obtain ⟨s₁, hsend, hgrows⟩ := run_send s tireless u
    obtain ⟨s', hrest, hgrows'⟩ := ih s₁
    have hfirst : (send w u >>= fun _ => pure (.yield PUnit.unit) :
        Work (ForInStep PUnit)).run s = (.ok (.yield PUnit.unit), s₁) := by
      rw [run_bind_ok hsend]
      rfl
    refine ⟨s', ?_, hgrows.trans hgrows'⟩
    rw [List.forIn_cons, run_bind_ok hfirst]
    exact hrest

theorem run_launch (l : Launch) (s : WorkState) :
    ∃ s', (launch w l).run s = (.ok (w.encode l), s') ∧ s.Grows s' [.encode l] [] :=
  ⟨_, rfl, rfl, rfl, rfl, rfl, rfl, by simp⟩

/-- The command as it is handed to the encoder. -/
def launchOf (w : Workshop) (command : CompiledCommand) (limit : Duration) : Launch :=
  ⟨command, limit, w.settings.keptLines⟩

/-- A run of the encoder: what it has written, or the failure that it ended with. -/
theorem run_encode (command : CompiledCommand) {duration : Int} {limit : Duration}
    (tireless : w.Tireless) (hlimit : w.settings.timeLimit? duration = some limit)
    (s : WorkState) :
    (∃ s', (w.encode (launchOf w command limit)).result = .ok () ∧
      (encode w command duration).run s =
        (.ok (w.encode (launchOf w command limit)).written, s') ∧
      s.GoesOn s' [.encode (launchOf w command limit)] []) ∨
    ∃ e s' r, (w.encode (launchOf w command limit)).result = .error e ∧
      (encode w command duration).run s = (.error (.failed r.fault), s') ∧
      s.GivesUp s' [.encode (launchOf w command limit)] [] r := by
  obtain ⟨s₁, hlaunch, hgrows₁⟩ := run_launch (w := w) (launchOf w command limit) s
  obtain ⟨s₂, hsends, hgrows₂⟩ := run_sends tireless (eventUpdates command.duration
    w.settings.keptLines.toNat 0 (w.encode (launchOf w command limit)).events) s₁
  have hgrows : s.Grows s₂ [.encode (launchOf w command limit)] [] := hgrows₁.trans hgrows₂
  have hstart : (encode w command duration).run s = (do
      orAbort w .encode (w.encode (launchOf w command limit)).result .media
      return (w.encode (launchOf w command limit)).written : Work (Option ByteArray)).run s₂ := by
    rw [encode, hlimit]
    change (launch w (launchOf w command limit) >>= _).run s = _
    rw [run_bind_ok hlaunch, run_bind_ok hsends]
  rw [hstart]
  rcases run_orAbort (w := w) .encode (w.encode (launchOf w command limit)).result
    (fun e => (rfl : (RenderFailure.media e).isRetryable = false)) s₂
    with ⟨_, hresult, hrun⟩ | ⟨e, s', r, hresult, hrun, hends⟩
  · exact .inl ⟨s₂, hresult, by rw [run_bind_ok hrun]; rfl, hgrows.goesOn⟩
  · exact .inr ⟨e, s', r, hresult, run_bind_error hrun _, hgrows.goesOn.givesUp hends⟩

/-- The file at the place of an output, if the encoder has left one. -/
def left (output : String) (written : Option ByteArray) : Table ByteArray :=
  (written.map fun bytes => (output, bytes)).toList

/-- The end of a render: the file is in the store, or the store has refused it. -/
theorem run_store (output : String) (written : Option ByteArray) (name mimeType : String)
    (s : WorkState) :
    (∃ file rest s', w.takeIn s.traces.shelf (left output written) output name mimeType =
        .ok (file, rest) ∧
      (store w output written name mimeType).run s = (.ok file, s') ∧ s'.calls = s.calls ∧
      s'.traces.records = s.traces.records) ∨
    ∃ e s' r, w.takeIn s.traces.shelf (left output written) output name mimeType = .error e ∧
      (store w output written name mimeType).run s = (.error (.failed r.fault), s') ∧
      s.GivesUp s' [] [] r := by
  have hstart : (store w output written name mimeType).run s =
      (orAbort w .store (w.takeIn s.traces.shelf (left output written) output name mimeType)
        .storage >>= fun r => do
          modify fun s => { s with traces := { s.traces with shelf := r.2.1 } }
          return r.1 : Work StoredFile).run s := rfl
  rw [hstart]
  rcases run_orAbort (w := w) .store
    (w.takeIn s.traces.shelf (left output written) output name mimeType)
    (fun e => (rfl : (RenderFailure.storage e).isRetryable = false)) s
    with ⟨⟨file, rest⟩, hstored, hrun⟩ | ⟨e, s', r, hrefused, hrun, hends⟩
  · exact .inl ⟨file, rest, { s with traces := { s.traces with shelf := rest.1 } }, hstored,
      by rw [run_bind_ok hrun]; rfl, rfl, rfl⟩
  · exact .inr ⟨e, s', r, hrefused, run_bind_error hrun _, hends⟩

end Work

end RenderGateway
