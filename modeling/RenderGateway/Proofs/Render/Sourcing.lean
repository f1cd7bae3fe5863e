import RenderGateway.Proofs.Render.Stages

/-!
# Sources on disk

The answers to the attempts decide which sources are brought to disk, and where to. The work goes
on exactly if all of them are; its calls up to then are the attempts.
-/

namespace RenderGateway

namespace Workshop

variable (w : Workshop) (shelf : Shelf) (jobId : String)

/-- The attempts at a source end with it being brought to a place. -/
def Brings (source : String × Nat) (path : String) : Prop :=
  ∃ attempts, Attempts w.policy (w.fetch shelf (w.inputs jobId) source.2 source.1) 1 attempts ∧
    Trial.path? ⟨source.1, source.2, attempts⟩ = some path

/-- Every source of a list is brought to its place. -/
def BringsAll (sources : List (String × Nat)) (paths : List (String × String)) : Prop :=
  List.Forall₂ (fun source entry => entry.1 = source.1 ∧ w.Brings shelf jobId source entry.2)
    sources paths

variable {w shelf jobId}

theorem Brings.unique {source : String × Nat} {path other : String}
    (h : w.Brings shelf jobId source path) (h' : w.Brings shelf jobId source other) :
    path = other := by
  obtain ⟨attempts, hattempts, hpath⟩ := h
  obtain ⟨others, hothers, hother⟩ := h'
  obtain rfl := hattempts.unique hothers
  exact Option.some.inj (hpath.symm.trans hother)

theorem BringsAll.unique {sources : List (String × Nat)} {paths others : List (String × String)}
    (h : w.BringsAll shelf jobId sources paths) (h' : w.BringsAll shelf jobId sources others) :
    paths = others := by
  induction h generalizing others with
  | nil =>
    cases h'
    rfl
  | cons hfirst _ ih =>
    cases h' with
    | cons hfirst' hrest' =>
      rw [Prod.ext (hfirst.1.trans hfirst'.1.symm) (hfirst.2.unique hfirst'.2), ih hrest']

theorem BringsAll.exists_path {sources : List (String × Nat)} {paths : List (String × String)}
    (h : w.BringsAll shelf jobId sources paths) {source : String × Nat} (hs : source ∈ sources) :
    ∃ path, w.Brings shelf jobId source path := by
  obtain ⟨i, hi, rfl⟩ := List.getElem_of_mem hs
  exact ⟨_, (h.get hi (h.length_eq ▸ hi)).2⟩

end Workshop

/-- Among the calls, each of the sources has been brought to disk. -/
def Call.Cover (sources : List (String × Nat)) (calls : List Call) : Prop :=
  ∀ source ∈ sources, ∃ attempt path, .fetch source.2 source.1 attempt (.ok path) ∈ calls

/-- Attempts at sources, and behind them one run of the encoder at most, which has all of them. -/
def Call.InOrder (sources : List (String × Nat)) (calls : List Call) : Prop :=
  ∃ fetches launch?, calls = fetches ++ (Option.map Call.encode launch?).toList ∧
    (∀ c ∈ fetches, ∀ l, c ≠ .encode l) ∧ (launch?.isSome → Call.Cover sources fetches)

theorem Call.inOrder_nil (sources : List (String × Nat)) : Call.InOrder sources [] :=
  ⟨[], none, rfl, by simp, by simp⟩

theorem Trial.mem_calls {t : Trial} {path : String} (h : t.path? = some path) :
    ∃ attempt, .fetch t.index t.url attempt (.ok path) ∈ t.calls := by
  obtain ⟨⟨k, answer⟩, hlast, hpath⟩ := Option.bind_eq_some_iff.1 h
  cases answer with
  | error e => cases hpath
  | ok place =>
    cases hpath
    exact ⟨_, List.mem_map.2 ⟨_, List.mem_of_getLast? hlast, rfl⟩⟩

namespace Work

variable {w : Workshop} {s s' : WorkState} {sources : List (String × Nat)} {trials : List Trial}
  {records : List FailureRecord}

namespace Fetched

theorem named {result : Except WorkEnd (List (String × String))}
    (h : Fetched w s s' sources trials records result) : ∀ r ∈ records, r.jobId = s.job.id := by
  intro r hr
  obtain ⟨i, hi, rfl⟩ := List.getElem_of_mem hr
  exact (h.recorded.get hi (h.recorded.length_eq ▸ hi)).jobId_eq

theorem no_encode {result : Except WorkEnd (List (String × String))}
    (_ : Fetched w s s' sources trials records result) :
    ∀ c ∈ trials.flatMap Trial.calls, ∀ l, c ≠ .encode l := by
  intro c hc l
  obtain ⟨t, _, ht⟩ := List.mem_flatMap.1 hc
  obtain ⟨_, _, rfl⟩ := List.mem_map.1 ht
  exact fun heq => by cases heq

theorem bringsAll {paths : List (String × String)}
    (h : Fetched w s s' sources trials records (.ok paths)) :
    w.BringsAll s.traces.shelf s.job.id sources paths := by
  cases h.ends with
  | covered all found =>
    have hboth := (List.forall₂_and_left trials paths).2 ⟨h.attempts, found⟩
    rw [← all, Workshop.BringsAll, List.forall₂_map_left_iff]
    exact hboth.imp fun t entry h => ⟨h.2.1, t.attempts, h.1, h.2.2⟩

theorem cover {paths : List (String × String)}
    (h : Fetched w s s' sources trials records (.ok paths)) :
    Call.Cover sources (trials.flatMap Trial.calls) := by
  cases h.ends with
  | covered all found =>
    intro source hsource
    rw [← all] at hsource
    obtain ⟨t, ht, rfl⟩ := List.mem_map.1 hsource
    obtain ⟨i, hi, rfl⟩ := List.getElem_of_mem ht
    obtain ⟨attempt, hmem⟩ := Trial.mem_calls (found.get hi (found.length_eq ▸ hi)).2
    exact ⟨attempt, _, List.mem_flatMap.2 ⟨_, ht, hmem⟩⟩

theorem goesOn {paths : List (String × String)}
    (h : Fetched w s s' sources trials records (.ok paths)) :
    s.GoesOn s' (trials.flatMap Trial.calls) records := by
  cases h.ends with
  | covered _ _ retried => exact ⟨h.grows, h.named, retried⟩

theorem not_bringsAll {e : WorkEnd} (h : Fetched w s s' sources trials records (.error e))
    (paths : List (String × String)) : ¬ w.BringsAll s.traces.shelf s.job.id sources paths := by
  intro hall
  cases h.ends with
  | @failed reached t earlier r trials_eq last =>
    have ht : t ∈ trials := by simp [trials_eq]
    have hsource : (t.url, t.index) ∈ sources := h.in_order.subset (List.mem_map_of_mem ht)
    obtain ⟨path, attempts, hattempts, hpath⟩ := hall.exists_path hsource
    obtain rfl := hattempts.unique (h.attempts t ht)
    cases last.symm.trans hpath

theorem givesUp {e : WorkEnd} (h : Fetched w s s' sources trials records (.error e)) :
    ∃ earlier r, e = .failed r.fault ∧ records = earlier ++ [r] ∧
      s.GivesUp s' (trials.flatMap Trial.calls) earlier r := by
  have hnamed := h.named
  have hgrows := h.grows
  cases h.ends with
  | failed _ _ records_eq retried given_up =>
    subst records_eq
    exact ⟨_, _, rfl, rfl, hgrows, hnamed, retried, given_up⟩

theorem inOrder {result : Except WorkEnd (List (String × String))}
    (h : Fetched w s s' sources trials records result) :
    Call.InOrder sources (trials.flatMap Trial.calls) :=
  ⟨_, none, by simp, h.no_encode, by simp⟩

/-- Attempts that brought all sources may stand in front of a run of the encoder. -/
theorem inOrder_launch {paths : List (String × String)}
    (h : Fetched w s s' sources trials records (.ok paths)) (launch? : Option Launch) :
    Call.InOrder sources (trials.flatMap Trial.calls ++ (launch?.map Call.encode).toList) :=
  ⟨_, launch?, rfl, h.no_encode, fun _ => h.cover⟩

end Fetched

end Work

end RenderGateway
