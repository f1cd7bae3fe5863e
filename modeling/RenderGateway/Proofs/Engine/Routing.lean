import RenderGateway.Engine

/-!
# Which engine is selected

`Routes` is the rule of routing, said of a list of engines as a whole: the first engine that covers
what is required, and the different ones in front of it with what they lack. The engines are tried
one after the other with a memory of those that were passed over. `selectFrom_cases` relates the
rule to this memory, and `selectFrom_erase_later` says that an engine is not tried twice.
-/

namespace RenderGateway

namespace Engine

/-- An engine covers what is required if it supports all of it. -/
def Covers (e : Engine) (cs : List Capability) : Prop := ∀ c ∈ cs, e.supports c = true

/-- The rejections of some engines, each engine once and in the order of first occurrence. -/
def rejections (cs : List Capability) (passed : List Engine) : List Rejection :=
  (passed.filter fun e => e ≠ planExport).eraseDups.map fun e =>
    ⟨e, Capability.all.filter fun c => c ∈ cs ∧ e.supports c = false⟩

/-- The rule of routing for a set of required capabilities. -/
inductive Routes (cs : List Capability) : List Engine → Routing → Prop
  | selected {before after : List Engine} {e : Engine} (renders : e ≠ planExport)
      (covers : e.Covers cs) (passed : ∀ x ∈ before, x = planExport ∨ ¬ x.Covers cs) :
      Routes cs (before ++ e :: after) ⟨e, rejections cs before, Capability.ordered cs⟩
  | exported {engines : List Engine} (passed : ∀ x ∈ engines, x = planExport ∨ ¬ x.Covers cs) :
      Routes cs engines ⟨planExport, rejections cs engines, Capability.ordered cs⟩

theorem missing_eq_nil_iff {e : Engine} {cs : List Capability} :
    e.missing cs = [] ↔ e.Covers cs := by
  simp [missing, Covers]

theorem covers_ordered {e : Engine} {cs : List Capability} :
    e.Covers (Capability.ordered cs) ↔ e.Covers cs := by
  simp [Covers, Capability.mem_ordered]

theorem missing_ordered (e : Engine) (cs : List Capability) :
    e.missing (Capability.ordered cs) =
      Capability.all.filter fun c => c ∈ cs ∧ e.supports c = false := by
  rw [missing, Capability.ordered, List.filter_filter]
  congr 1
  funext c
  cases e.supports c <;> simp

theorem missing_ne_nil_of_mem_rejections {cs : List Capability} {passed : List Engine}
    (h : ∀ x ∈ passed, x = planExport ∨ ¬ x.Covers cs) {r : Rejection}
    (hr : r ∈ rejections cs passed) : r.engine ≠ planExport ∧ r.missing ≠ [] := by
  obtain ⟨e, he, rfl⟩ := List.mem_map.1 hr
  obtain ⟨hmem, hne⟩ := List.mem_filter.1 (List.mem_eraseDups.1 he)
  have hexport : e ≠ planExport := by simpa using hne
  refine ⟨hexport, fun hnil => ?_⟩
  rw [← missing_ordered, missing_eq_nil_iff, covers_ordered] at hnil
  exact (h e hmem).elim hexport fun hnot => hnot hnil

section Selection

variable {required : List Capability}

/-- One engine is tried, unless it was tried before. -/
theorem selectFrom_cons (passed : List Rejection) (e : Engine) (engines : List Engine) :
    selectFrom required passed (e :: engines) =
      if (passed.any fun r => r.engine = e) = true then selectFrom required passed engines
      else if e.missing required = [] then (e, passed.reverse)
      else selectFrom required (⟨e, e.missing required⟩ :: passed) engines := by
  rw [selectFrom]
  congr 1
  split
  · next h => rw [if_pos h]
  · next h => rw [if_neg h]

/-- The engines that are not among those passed over before, each once. -/
def fresh (passed : List Rejection) (engines : List Engine) : List Engine :=
  (engines.filter fun e => !passed.any fun r => r.engine = e).eraseDups

theorem fresh_nil (engines : List Engine) : fresh [] engines = engines.eraseDups := by
  rw [fresh, List.filter_eq_self.2 (by simp)]

theorem fresh_cons_of_passed {passed : List Rejection} {e : Engine}
    (h : (passed.any fun r => r.engine = e) = true) (engines : List Engine) :
    fresh passed (e :: engines) = fresh passed engines := by
  rw [fresh, List.filter_cons_of_neg (by simp [h]), fresh]

theorem fresh_cons_of_new {passed : List Rejection} {e : Engine}
    (h : (passed.any fun r => r.engine = e) = false) (missing : List Capability)
    (engines : List Engine) :
    fresh passed (e :: engines) = e :: fresh (⟨e, missing⟩ :: passed) engines := by
  rw [fresh, List.filter_cons_of_pos (by simp [h]), List.eraseDups_cons, List.filter_filter, fresh]
  congr 3
  funext x
  rw [List.any_cons, Bool.not_or]
  congr 1
  by_cases hx : e = x
  · simp [hx]
  · simp [hx, Ne.symm hx]

/-- Selection goes on to the first engine that lacks nothing, and adds the new ones in front of it
to those that were passed over before. -/
theorem selectFrom_cases (required : List Capability) (passed : List Rejection) (engines : List Engine)
    (hpassed : ∀ r ∈ passed, ¬ r.engine.Covers required) :
    (∃ before e after, engines = before ++ e :: after ∧ e.Covers required ∧
      (∀ x ∈ before, ¬ x.Covers required) ∧
      selectFrom required passed engines =
        (e, passed.reverse ++ (fresh passed before).map fun x => ⟨x, x.missing required⟩)) ∨
    (∀ x ∈ engines, ¬ x.Covers required) ∧
      selectFrom required passed engines =
        (planExport,
          passed.reverse ++ (fresh passed engines).map fun x => ⟨x, x.missing required⟩) := by
  induction engines generalizing passed with
  | nil =>
    right
    exact ⟨by simp, by simp [selectFrom, fresh]⟩
  | cons e engines ih =>
    by_cases hseen : (passed.any fun r => r.engine = e) = true
    · have hnot : ¬ e.Covers required := by
        obtain ⟨r, hr, he⟩ := List.any_eq_true.1 hseen
        have heq : r.engine = e := by simpa using he
        exact heq ▸ hpassed r hr
      rw [selectFrom_cons, if_pos hseen]
      rcases ih passed hpassed with ⟨before, x, after, rfl, hx, hbefore, hs⟩ | ⟨hall, hs⟩
      · left
        refine ⟨e :: before, x, after, rfl, hx, List.forall_mem_cons.2 ⟨hnot, hbefore⟩, ?_⟩
        rw [hs, fresh_cons_of_passed hseen]
      · right
        refine ⟨List.forall_mem_cons.2 ⟨hnot, hall⟩, ?_⟩
        rw [hs, fresh_cons_of_passed hseen]
    · rw [selectFrom_cons, if_neg hseen]
      by_cases hcovers : e.Covers required
      · left
        refine ⟨[], e, engines, rfl, hcovers, by simp, ?_⟩
        rw [if_pos (missing_eq_nil_iff.2 hcovers)]
        simp [fresh]
      · rw [if_neg fun h => hcovers (missing_eq_nil_iff.1 h)]
        have hnew : (passed.any fun r => r.engine = e) = false := by simpa using hseen
        rcases ih (⟨e, e.missing required⟩ :: passed) (List.forall_mem_cons.2 ⟨hcovers, hpassed⟩)
          with ⟨before, x, after, rfl, hx, hbefore, hs⟩ | ⟨hall, hs⟩
        · left
          refine ⟨e :: before, x, after, rfl, hx, List.forall_mem_cons.2 ⟨hcovers, hbefore⟩, ?_⟩
          rw [hs, fresh_cons_of_new hnew (e.missing required)]
          simp
        · right
          refine ⟨List.forall_mem_cons.2 ⟨hcovers, hall⟩, ?_⟩
          rw [hs, fresh_cons_of_new hnew (e.missing required)]
          simp

/-- An engine that was passed over is not looked at again. -/
theorem selectFrom_erase_of_passed {passed : List Rejection} {e : Engine}
    (h : (passed.any fun r => r.engine = e) = true) (between after : List Engine) :
    selectFrom required passed (between ++ e :: after) =
      selectFrom required passed (between ++ after) := by
  induction between generalizing passed with
  | nil => rw [List.nil_append, selectFrom_cons, if_pos h, List.nil_append]
  | cons x between ih =>
    have hlater (missing : List Capability) :
        (((⟨x, missing⟩ : Rejection) :: passed).any fun r => r.engine = e) = true := by
      rw [List.any_cons, h, Bool.or_true]
    rw [List.cons_append, List.cons_append, selectFrom_cons, selectFrom_cons, ih h, ih (hlater _)]

theorem selectFrom_erase_later (passed : List Rejection) (before between after : List Engine)
    (e : Engine) :
    selectFrom required passed (before ++ e :: (between ++ e :: after)) =
      selectFrom required passed (before ++ e :: (between ++ after)) := by
  induction before generalizing passed with
  | nil =>
    rw [List.nil_append, List.nil_append, selectFrom_cons, selectFrom_cons]
    by_cases hseen : (passed.any fun r => r.engine = e) = true
    · rw [if_pos hseen, if_pos hseen, selectFrom_erase_of_passed hseen]
    · have hpassed : (((⟨e, e.missing required⟩ : Rejection) :: passed).any
          fun r => r.engine = e) = true := by simp
      rw [if_neg hseen, if_neg hseen, selectFrom_erase_of_passed hpassed]
  | cons x before ih =>
    rw [List.cons_append, List.cons_append, selectFrom_cons, selectFrom_cons, ih, ih]

end Selection

section Rule

variable (cs : List Capability)

theorem route_eq (engines : List Engine) :
    route (Capability.ordered cs) engines =
      ⟨(selectFrom (Capability.ordered cs) [] (engines.filter fun e => e ≠ planExport)).1,
        (selectFrom (Capability.ordered cs) [] (engines.filter fun e => e ≠ planExport)).2,
        Capability.ordered cs⟩ := rfl

theorem map_missing_fresh (engines : List Engine) :
    ((fresh [] (engines.filter fun e => e ≠ planExport)).map
      fun x => (⟨x, x.missing (Capability.ordered cs)⟩ : Rejection)) = rejections cs engines := by
  rw [fresh_nil, rejections]
  congr 1
  funext x
  rw [missing_ordered]

/-- Routing follows the rule. -/
theorem routes (engines : List Engine) : Routes cs engines (route (Capability.ordered cs) engines) := by
  rw [route_eq]
  rcases selectFrom_cases (Capability.ordered cs) [] _ (by simp)
    with ⟨before, e, after, hsplit, hcovers, hbefore, hs⟩ | ⟨hall, hs⟩
  · rw [hs]
    obtain ⟨first, rest, rfl, rfl, hrest⟩ := List.filter_eq_append_iff.1 hsplit
    obtain ⟨skipped, last, rfl, hskipped, hrenders, rfl⟩ := List.filter_eq_cons_iff.1 hrest
    have hchain : rejections cs (first ++ skipped) = rejections cs first := by
      rw [rejections, List.filter_append, List.filter_eq_nil_iff.2 hskipped, List.append_nil,
        rejections]
    have hrule : Routes cs ((first ++ skipped) ++ e :: last)
        ⟨e, rejections cs (first ++ skipped), Capability.ordered cs⟩ := by
      refine .selected (by simpa using hrenders) (covers_ordered.1 hcovers) ?_
      intro x hx
      rcases List.mem_append.1 hx with hx | hx
      · by_cases hexport : x = planExport
        · exact .inl hexport
        · exact .inr fun h => hbefore x (List.mem_filter.2 ⟨hx, by simpa using hexport⟩)
            (covers_ordered.2 h)
      · exact .inl (by simpa using hskipped x hx)
    rw [List.append_assoc, hchain] at hrule
    rw [map_missing_fresh]
    exact hrule
  · rw [hs, map_missing_fresh]
    refine .exported fun x hx => ?_
    by_cases hexport : x = planExport
    · exact .inl hexport
    · exact .inr fun h => hall x (List.mem_filter.2 ⟨hx, by simpa using hexport⟩)
        (covers_ordered.2 h)

theorem route_insert_planExport (before after : List Engine) :
    route (Capability.ordered cs) (before ++ planExport :: after) =
      route (Capability.ordered cs) (before ++ after) := by
  rw [route_eq, route_eq, List.filter_append, List.filter_cons_of_neg (by simp),
    List.filter_append]

theorem route_erase_later (before between after : List Engine) (e : Engine) :
    route (Capability.ordered cs) (before ++ e :: (between ++ e :: after)) =
      route (Capability.ordered cs) (before ++ e :: (between ++ after)) := by
  by_cases he : e = planExport
  · rw [he, route_insert_planExport, ← List.append_assoc, route_insert_planExport,
      route_insert_planExport, List.append_assoc]
  · have hkept : decide (e ≠ planExport) = true := by simpa using he
    simp only [route_eq, List.filter_append, List.filter_cons, hkept, if_true,
      selectFrom_erase_later]

end Rule

/-- Routing selects the first engine that covers what is required, and exports the plan if there
is none. It lists what each engine in front of the selected one lacks, and looks at no engine
twice and at the export not at all. -/
theorem routes_route (cs : List Capability) (engines : List Engine) :
    Routes cs engines (route (Capability.ordered cs) engines) ∧
    ((route (Capability.ordered cs) engines).selected = planExport ↔
      ∀ e ∈ engines, e = planExport ∨ ¬ e.Covers cs) ∧
    (∀ r ∈ (route (Capability.ordered cs) engines).fallbackChain,
      r.engine ≠ planExport ∧ r.missing ≠ []) ∧
    (∀ before after, route (Capability.ordered cs) (before ++ planExport :: after) =
      route (Capability.ordered cs) (before ++ after)) ∧
    ∀ before between after e,
      route (Capability.ordered cs) (before ++ e :: (between ++ e :: after)) =
        route (Capability.ordered cs) (before ++ e :: (between ++ after)) := by
  have hrule := routes cs engines
  refine ⟨hrule, ?_, ?_, route_insert_planExport cs, route_erase_later cs⟩
  · generalize route (Capability.ordered cs) engines = d at hrule
    cases hrule with
    | selected renders covers passed =>
      constructor
      · intro h
        exact absurd h renders
      · intro h
        have hlast := h _ (List.mem_append_right _ List.mem_cons_self)
        exact hlast.resolve_right fun hnot => hnot covers
    | exported passed => exact ⟨fun _ => passed, fun _ => rfl⟩
  · generalize route (Capability.ordered cs) engines = d at hrule
    intro r hr
    cases hrule with
    | selected _ _ passed => exact missing_ne_nil_of_mem_rejections passed hr
    | exported passed => exact missing_ne_nil_of_mem_rejections passed hr

theorem routes_serverFfmpeg :
    (⟨cloudinary, [.audioMux]⟩ : Rejection) ∈
      (route (Capability.ordered [.textOverlay, .audioMux])
        [webcodecs, planExport, cloudinary, webcodecs, serverFfmpeg]).fallbackChain ∧
    (cloudinary ≠ planExport ∧ [Capability.audioMux] ≠ []) := by
  have hmem : (⟨cloudinary, [.audioMux]⟩ : Rejection) ∈
      (route (Capability.ordered [.textOverlay, .audioMux])
        [webcodecs, planExport, cloudinary, webcodecs, serverFfmpeg]).fallbackChain := by decide
  exact ⟨hmem, (routes_route _ _).2.2.1 _ hmem⟩

end Engine

end RenderGateway
