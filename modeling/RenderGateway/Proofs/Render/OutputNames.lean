import RenderGateway.Proofs.Store.AppendOnly
import RenderGateway.Render.OutputName
import RenderGateway.Store.Settings

/-!
# Names of rendered files in the store

The name of a rendered file is a lead, which comes from the requested name, then the id of the job,
a dot and the extension. Two ids of one length never give the same name, whatever is requested. The
store takes the name unless two dots stand side by side in what is left of the requested name: dots
are dropped from its start, but not from its inside.
-/

namespace RenderGateway

namespace FileName

/-- Two dots stand side by side in front of some other character, or behind it. -/
theorem doubleDot_append_cons_iff {c : Char} (hc : c ≠ '.') {cs ds : List Char} :
    ['.', '.'] <:+: cs ++ c :: ds ↔ ['.', '.'] <:+: cs ∨ ['.', '.'] <:+: ds := by
  rw [List.infix_append_iff, List.infix_cons_iff]
  refine ⟨?_, fun h => h.imp id fun hds => .inl (.inr hds)⟩
  have hstart : ∀ {rest}, ¬ '.' :: rest <+: c :: ds := fun h =>
    hc (List.cons_prefix_cons.1 h).1.symm
  rintro (hcs | (hds | hds) | ⟨front, back, hdots, hcs, hds⟩)
  · exact .inl hcs
  · exact absurd hds hstart
  · exact .inr hds
  · -- What reaches into `c :: ds` is empty, as it would begin with a dot.
    cases back with
    | nil =>
      rw [List.append_nil] at hdots
      exact .inl (hdots ▸ hcs).isInfix
    | cons b back =>
      have hb : b ∈ ['.', '.'] := by simp [hdots]
      have hdot : b = '.' := by simpa using hb
      exact absurd (hdot ▸ hds) hstart

end FileName

namespace OutputName

open RenderGateway.FileName

/-- What is left of the requested name, if anything is. -/
def kept? (requested : Option String) (container : Container) : Option (List Char) :=
  (requested.map fun name => stem name container.extension.toList).filter (· ≠ [])

/-- What stands before the id of the job. -/
def lead (requested : Option String) (container : Container) : List Char :=
  (kept? requested container).elim [] (· ++ ['-'])

theorem toList_ofJob (requested : Option String) (jobId : String) (container : Container) :
    (ofJob requested jobId container).toList =
      lead requested container ++ (jobId.toList ++ '.' :: container.extension.toList) := by
  unfold lead
  cases h : kept? requested container
  all_goals
    unfold kept? at h
    simp only [ofJob, h]
    simp [toString]

theorem word_extension (container : Container) : IsWord container.extension.toList := by
  cases container <;> decide

section Storing

variable {requested : Option String} {container : Container}

/-- Nothing stands before the id, or what is left of the requested name and a dash. -/
theorem lead_cases (requested : Option String) (container : Container) :
    lead requested container = [] ∧
        (∀ name ∈ requested, stem name container.extension.toList = []) ∨
      ∃ name, requested = some name ∧
        lead requested container = stem name container.extension.toList ++ ['-'] := by
  cases requested with
  | none => exact .inl ⟨rfl, nofun⟩
  | some name =>
    by_cases hstem : stem name container.extension.toList = []
    · refine .inl ⟨by simp [lead, kept?, Option.filter, hstem], ?_⟩
      rintro _ ⟨⟩
      exact hstem
    · exact .inr ⟨name, rfl, by simp [lead, kept?, Option.filter, hstem]⟩

theorem isKept_of_mem_stem {name : String} {extension : List Char} {c : Char}
    (h : c ∈ stem name extension) : isKept c = true := by
  have hkept := List.mem_of_mem_take ((List.dropWhile_suffix _).subset h)
  exact (List.mem_filter.1 hkept).2

theorem isKept_of_mem_lead {c : Char} (h : c ∈ lead requested container) : isKept c = true := by
  rcases lead_cases requested container with ⟨hlead, _⟩ | ⟨name, _, hlead⟩
  · rw [hlead] at h
    cases h
  · rw [hlead, List.mem_append, List.mem_singleton] at h
    rcases h with h | rfl
    · exact isKept_of_mem_stem h
    · rfl

theorem isKept_of_mem_ofJob {jobId : String} (hid : IsWord jobId.toList) {c : Char}
    (h : c ∈ (ofJob requested jobId container).toList) : isKept c = true := by
  have hword : ∀ {cs}, IsWord cs → c ∈ cs → isKept c = true := by
    intro cs hcs hc
    rcases hcs c hc with hc | rfl
    · simp [isKept, hc]
    · rfl
  rw [toList_ofJob, List.mem_append, List.mem_append, List.mem_cons] at h
  rcases h with hc | hc | rfl | hc
  · exact isKept_of_mem_lead hc
  · exact hword hid hc
  · rfl
  · exact hword (word_extension container) hc

/-- Two dots stand side by side in the name of a file only where they do so in what is left of the
requested name. -/
theorem doubleDot_ofJob_iff {jobId : String} (hid : IsWord jobId.toList) :
    ['.', '.'] <:+: (ofJob requested jobId container).toList ↔
      ∃ name ∈ requested, ['.', '.'] <:+: stem name container.extension.toList := by
  have hrest := not_doubleDot_of_words hid (word_extension container)
  rw [toList_ofJob]
  rcases lead_cases requested container with ⟨hlead, hnone⟩ | ⟨name, hname, hlead⟩
  · rw [hlead, List.nil_append]
    refine iff_of_false hrest ?_
    rintro ⟨name, hname, hdots⟩
    rw [hnone name hname] at hdots
    cases List.infix_nil.1 hdots
  · rw [hlead, List.append_assoc, List.singleton_append, doubleDot_append_cons_iff (by decide)]
    simp [hname, hrest]

theorem direct_ofJob_iff {jobId : String} (hid : IsWord jobId.toList) :
    Direct (ofJob requested jobId container) ↔
      ¬ ∃ name ∈ requested, ['.', '.'] <:+: stem name container.extension.toList := by
  rw [← doubleDot_ofJob_iff hid]
  refine ⟨Direct.no_doubleDot, fun hdots => ?_⟩
  have hext : container.extension.toList ≠ [] := by cases container <;> decide
  have hlength : 2 ≤ (ofJob requested jobId container).toList.length := by
    have hpos := List.length_pos_iff.2 hext
    rw [toList_ofJob, List.length_append, List.length_append, List.length_cons]
    omega
  exact {
    ne_empty := by
      intro h
      rw [h] at hlength
      exact absurd hlength (by decide)
    ne_dot := by
      intro h
      rw [h] at hlength
      exact absurd hlength (by decide)
    no_slash := fun h => absurd (isKept_of_mem_ofJob hid h) (by decide)
    no_backslash := fun h => absurd (isKept_of_mem_ofJob hid h) (by decide)
    no_doubleDot := hdots }

/-- A store takes the name of a rendered file, or two dots stand side by side in what is left of
the requested name, and then the store refuses the name. -/
theorem pathOf_ofJob (store : FileStore) (requested : Option String) {jobId : String}
    (hid : IsWord jobId.toList) (container : Container) :
    (∀ name ∈ requested, ¬ ['.', '.'] <:+: stem name container.extension.toList) ∧
        store.pathOf (ofJob requested jobId container) =
          .ok (store.place (ofJob requested jobId container)) ∨
      (∃ name ∈ requested, ['.', '.'] <:+: stem name container.extension.toList) ∧
        store.pathOf (ofJob requested jobId container) =
          .error (.invalidName (ofJob requested jobId container)) := by
  have hplain : isPlain (ofJob requested jobId container) = true ↔
      ¬ ∃ name ∈ requested, ['.', '.'] <:+: stem name container.extension.toList :=
    isPlain_iff.trans (direct_ofJob_iff hid)
  unfold FileStore.pathOf
  by_cases hdots : ∃ name ∈ requested, ['.', '.'] <:+: stem name container.extension.toList
  · exact .inr ⟨hdots, if_neg fun h => hplain.1 h hdots⟩
  · exact .inl ⟨by simpa using hdots, if_pos (hplain.2 hdots)⟩

/-- Dots, blanks and slashes around a name and its extension do no harm. -/
theorem pathOf_ofJob_film : IsWord "6f1c2ad4-90be-1c7a-8f5e-2b1d7c3e9a10".toList ∧
    StorageSettings.default.outputStore.pathOf
      (ofJob (some " ../../My Film.v2.webm ") "6f1c2ad4-90be-1c7a-8f5e-2b1d7c3e9a10" .webm) =
        .ok "./data/outputs/MyFilm.v2-6f1c2ad4-90be-1c7a-8f5e-2b1d7c3e9a10.webm" := by
  have hid : IsWord "6f1c2ad4-90be-1c7a-8f5e-2b1d7c3e9a10".toList := by decide
  refine ⟨hid, ?_⟩
  rcases pathOf_ofJob StorageSettings.default.outputStore (some " ../../My Film.v2.webm ") hid
    .webm with ⟨_, hok⟩ | ⟨⟨name, hname, hdots⟩, _⟩
  · rw [hok]
    decide +kernel
  · cases hname
    exact absurd hdots (by decide +kernel)

/-- Two dots inside the requested name are kept, and the store refuses the name. -/
theorem pathOf_ofJob_dots : IsWord "6f1c2ad4-90be-1c7a-8f5e-2b1d7c3e9a10".toList ∧
    StorageSettings.default.outputStore.pathOf
      (ofJob (some "a..b") "6f1c2ad4-90be-1c7a-8f5e-2b1d7c3e9a10" .mp4) =
        .error (.invalidName "a..b-6f1c2ad4-90be-1c7a-8f5e-2b1d7c3e9a10.mp4") := by
  decide +kernel

end Storing

section Distinct

/-- Equal lists are equal in front of the last `c`. -/
theorem eq_of_append_cons_eq {α : Type} {c : α} {as bs as' bs' : List α} (hbs : c ∉ bs)
    (hbs' : c ∉ bs') (h : as ++ c :: bs = as' ++ c :: bs') : as = as' := by
  have hnil : ∀ {mid bs bs' : List α}, c ∉ bs → c :: bs = mid ++ c :: bs' → mid = [] := by
    intro mid bs bs' hbs h
    cases mid with
    | nil => rfl
    | cons _ mid =>
      cases h
      simp at hbs
  rcases List.append_eq_append_iff.1 h with ⟨mid, rfl, hmid⟩ | ⟨mid, rfl, hmid⟩
  · rw [hnil hbs hmid, List.append_nil]
  · rw [hnil hbs' hmid, List.append_nil]

theorem eq_of_suffix {s t : String} (h : s.toList <:+ t.toList)
    (hsize : s.length = t.length ∨ s.utf8ByteSize = t.utf8ByteSize) : s = t := by
  obtain ⟨front, hfront⟩ := h
  have ht : t = String.ofList front ++ s := by
    rw [← String.toList_inj, String.toList_append, String.toList_ofList, hfront]
  have hempty : String.ofList front = "" := by
    rcases hsize with hlength | hbytes
    · rw [ht, String.length_append] at hlength
      exact String.length_eq_zero_iff.1 (by omega)
    · rw [ht, String.utf8ByteSize_append] at hbytes
      exact String.utf8ByteSize_eq_zero_iff.1 (by omega)
  rw [ht, hempty, String.empty_append]

/-- Files of different jobs have different names, whatever names were requested, if the ids have
one length, in characters or in bytes. -/
theorem ofJob_ne {jobId other : String} (hne : jobId ≠ other)
    (hsize : jobId.length = other.length ∨ jobId.utf8ByteSize = other.utf8ByteSize)
    (requested requested' : Option String) (container container' : Container) :
    ofJob requested jobId container ≠ ofJob requested' other container' := by
  intro h
  have hlists := congrArg String.toList h
  rw [toList_ofJob, toList_ofJob, ← List.append_assoc, ← List.append_assoc] at hlists
  have hfronts := eq_of_append_cons_eq (word_extension container).dot_not_mem
    (word_extension container').dot_not_mem hlists
  have hid : jobId.toList <:+ lead requested container ++ jobId.toList := List.suffix_append _ _
  have hother : other.toList <:+ lead requested container ++ jobId.toList :=
    hfronts ▸ List.suffix_append _ _
  rcases List.suffix_or_suffix_of_suffix hid hother with hsuffix | hsuffix
  · exact hne (eq_of_suffix hsuffix hsize)
  · exact hne (eq_of_suffix hsuffix (hsize.imp Eq.symm Eq.symm)).symm

/-- A requested name that holds the id of the other job does not bring the names together. -/
theorem ofJob_ne_adversarial : "job-1" ≠ "job-2" ∧ "job-1".length = "job-2".length ∧
    ofJob (some "cut-job-2.mp4") "job-1" .mp4 ≠ ofJob (some "cut") "job-2" .mp4 :=
  ⟨by decide, by decide, ofJob_ne (by decide) (.inl (by decide)) _ _ _ _⟩

end Distinct

end OutputName

end RenderGateway
