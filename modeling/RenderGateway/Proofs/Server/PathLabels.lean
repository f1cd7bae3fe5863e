import Mathlib.Data.List.GetD
import RenderGateway.Server.Metrics

/-!
# Labels of paths

The label of a path has a segment for each segment of the path. The name of a job, the name of a
file directly in a store, a number and whatever has the shape of a UUID become placeholders, and
every other segment stays as it is. What a segment becomes depends on the segment before it in the
path, not in the label; but a placeholder is no word that says what comes behind it, so the words of
the label are words of the path. Hence a label is in a normal form that is its own label, and paths
that differ only in names of jobs and files have one label.
-/

namespace RenderGateway.Measure

/-! ### Segments and what they name -/

/-- One digit or more and nothing else. -/
structure IsNumber (segment : List Char) : Prop where
  ne_nil : segment ≠ []
  isDigit : ∀ c ∈ segment, c.isDigit = true

def IsHexDigit (c : Char) : Prop :=
  c.isDigit = true ∨ ('a' ≤ c ∧ c ≤ 'f') ∨ ('A' ≤ c ∧ c ≤ 'F')

/-- As long as a UUID, with as many hyphens, and with hexadecimal digits besides. -/
structure HasUuidShape (segment : List Char) : Prop where
  length_eq : segment.length = 36
  hyphens : segment.count '-' = 4
  digits : ∀ c ∈ segment, c = '-' ∨ IsHexDigit c

/-- What stands for one thing out of many, wherever it stands. -/
def IsIdentifier (segment : List Char) : Prop := IsNumber segment ∨ HasUuidShape segment

/-- The words for the two stores of files. -/
def IsStore (word : List Char) : Prop := word = "uploads".toList ∨ word = "outputs".toList

/-- The words that say what comes behind them. -/
def IsKeyword (word : List Char) : Prop := word = "jobs".toList ∨ IsStore word

/-- A segment behind the word for jobs names one. -/
structure IsJob (parent segment : List Char) : Prop where
  parent_eq : parent = "jobs".toList
  ne_nil : segment ≠ []

/-- A segment behind the word for a store names a file if that word opens the path. The index of the
file is two, because an empty segment comes before the first slash. -/
structure IsFile (parent segment : List Char) (index : Nat) : Prop where
  isStore : IsStore parent
  index_eq : index = 2
  ne_nil : segment ≠ []

instance : DecidablePred IsStore := fun _ => inferInstanceAs (Decidable (_ ∨ _))

instance : DecidablePred IsKeyword := fun _ => inferInstanceAs (Decidable (_ ∨ _))

instance (parent segment : List Char) : Decidable (IsJob parent segment) :=
  decidable_of_iff (parent = "jobs".toList ∧ segment ≠ [])
    ⟨fun h => ⟨h.1, h.2⟩, fun h => ⟨h.parent_eq, h.ne_nil⟩⟩

instance (parent segment : List Char) (i : Nat) : Decidable (IsFile parent segment i) :=
  decidable_of_iff (IsStore parent ∧ i = 2 ∧ segment ≠ [])
    ⟨fun h => ⟨h.1, h.2.1, h.2.2⟩, fun h => ⟨h.isStore, h.index_eq, h.ne_nil⟩⟩

theorem IsStore.ne_jobs {word : List Char} (h : IsStore word) : word ≠ "jobs".toList := by
  rcases h with rfl | rfl <;> decide

theorem isSome_hexValue?_iff {c : Char} : (Json.hexValue? c).isSome = true ↔ IsHexDigit c := by
  grind [Json.hexValue?, IsHexDigit]

theorem isIdentifier_iff {segment : List Char} :
    isIdentifier segment = true ↔ IsIdentifier segment := by
  have hnumber : (segment ≠ [] ∧ ∀ c ∈ segment, c.isDigit = true) ↔ IsNumber segment :=
    ⟨fun h => ⟨h.1, h.2⟩, fun h => ⟨h.ne_nil, h.isDigit⟩⟩
  have hshape : ((segment.length = 36 ∧ segment.count '-' = 4) ∧
      ∀ c ∈ segment, c = '-' ∨ IsHexDigit c) ↔ HasUuidShape segment :=
    ⟨fun h => ⟨h.1.1, h.1.2, h.2⟩, fun h => ⟨⟨h.length_eq, h.hyphens⟩, h.digits⟩⟩
  simp only [isIdentifier, Bool.or_eq_true, Bool.and_eq_true, decide_eq_true_eq, List.all_eq_true,
    isSome_hexValue?_iff, hnumber, hshape, IsIdentifier]

instance : DecidablePred IsIdentifier := fun _ => decidable_of_iff _ isIdentifier_iff

/-! ### The label of one segment -/

section Segment

variable {parent segment : List Char} {i : Nat}

theorem segmentLabel_of_isJob (h : IsJob parent segment) :
    segmentLabel parent segment i = ":id".toList :=
  if_pos ⟨h.parent_eq, h.ne_nil⟩

theorem segmentLabel_of_isFile (h : IsFile parent segment i) :
    segmentLabel parent segment i = ":file".toList := by
  rw [segmentLabel, if_neg fun hjob => h.isStore.ne_jobs hjob.1,
    if_pos ⟨h.isStore, h.index_eq, h.ne_nil⟩]

/-- Of a name the label says only whether it is that of a job. -/
theorem segmentLabel_of_names (h : IsJob parent segment ∨ IsFile parent segment i) :
    segmentLabel parent segment i =
      if parent = "jobs".toList then ":id".toList else ":file".toList := by
  obtain hjob | hfile := h
  · rw [segmentLabel_of_isJob hjob, if_pos hjob.parent_eq]
  · rw [segmentLabel_of_isFile hfile, if_neg hfile.isStore.ne_jobs]

/-- Elsewhere it does not matter what comes before a segment. -/
theorem segmentLabel_of_not (hjob : ¬ IsJob parent segment) (hfile : ¬ IsFile parent segment i) :
    segmentLabel parent segment i =
      if IsIdentifier segment then ":id".toList else segment := by
  rw [segmentLabel, if_neg fun h => hjob ⟨h.1, h.2⟩, if_neg fun h => hfile ⟨h.1, h.2.1, h.2.2⟩]
  simp only [isIdentifier_iff]

theorem segmentLabel_of_not_isKeyword (h : ¬ IsKeyword parent) :
    segmentLabel parent segment i = if IsIdentifier segment then ":id".toList else segment :=
  segmentLabel_of_not (fun hjob => h (.inl hjob.parent_eq)) fun hfile => h (.inr hfile.isStore)

/-- A label is a placeholder or the segment itself, which then is no identifier. -/
@[elab_as_elim] theorem segmentLabel_rec {motive : List Char → Prop} (parent segment : List Char)
    (i : Nat) (id : motive ":id".toList) (file : motive ":file".toList)
    (kept : ¬ IsIdentifier segment → motive segment) : motive (segmentLabel parent segment i) := by
  by_cases hjob : IsJob parent segment
  · rwa [segmentLabel_of_isJob hjob]
  · by_cases hfile : IsFile parent segment i
    · rwa [segmentLabel_of_isFile hfile]
    · rw [segmentLabel_of_not hjob hfile]
      by_cases hidentifier : IsIdentifier segment
      · rwa [if_pos hidentifier]
      · rw [if_neg hidentifier]
        exact kept hidentifier

@[simp] theorem segmentLabel_nil : segmentLabel parent [] i = [] := by
  rw [segmentLabel_of_not (fun h => h.ne_nil rfl) fun h => h.ne_nil rfl, if_neg (by decide)]

theorem slash_not_mem_segmentLabel (h : '/' ∉ segment) :
    '/' ∉ segmentLabel parent segment i := by
  refine segmentLabel_rec parent segment i ?_ ?_ fun _ => h <;> decide

theorem not_isIdentifier_segmentLabel : ¬ IsIdentifier (segmentLabel parent segment i) := by
  refine segmentLabel_rec parent segment i ?_ ?_ fun hnot => hnot <;> decide

/-- A placeholder is no keyword, so the keywords of a label are those of the path. -/
theorem segmentLabel_eq_of_isKeyword :
    IsKeyword (segmentLabel parent segment i) → segmentLabel parent segment i = segment := by
  refine segmentLabel_rec parent segment i ?_ ?_ fun _ _ => rfl
  · exact fun h => absurd h (by decide)
  · exact fun h => absurd h (by decide)

end Segment

/-! ### Paths as lists of segments -/

/-- The parts of a path between its slashes. -/
def segments (path : String) : List (List Char) := path.toList.splitOn '/'

/-- The segment at an index. Beyond the last one all are empty. -/
def segmentAt (parts : List (List Char)) (i : Nat) : List Char := parts.getD i []

/-- The segment before the one at an index. Before the first one it is empty. -/
def parentAt (parts : List (List Char)) (i : Nat) : List Char := segmentAt ([] :: parts) i

/-- The segments of a path with a label in the place of each. -/
def labelled (parts : List (List Char)) : List (List Char) := segmentLabels [] 0 parts

variable {parts others : List (List Char)} {segment : List Char} {i : Nat}

theorem segmentAt_of_lt (h : i < parts.length) : segmentAt parts i = parts[i] :=
  List.getD_eq_getElem _ _ h

theorem segmentAt_of_le (h : parts.length ≤ i) : segmentAt parts i = [] :=
  List.getD_eq_default _ _ h

/-- No part between two separators has one in it. -/
theorem not_mem_of_mem_splitOn {α : Type} [DecidableEq α] {a : α} {as part : List α}
    (h : part ∈ as.splitOn a) : a ∉ part := by
  induction as generalizing part with
  | nil =>
    obtain rfl := List.mem_singleton.1 h
    exact List.not_mem_nil
  | cons b as ih =>
    rw [List.splitOn_cons_eq_if_modifyHead] at h
    split at h
    · obtain rfl | hrest := List.mem_cons.1 h
      · exact List.not_mem_nil
      · exact ih hrest
    · next hb =>
      -- only the first part grows by the new element
      cases hparts : as.splitOn a with
      | nil => exact absurd hparts (List.splitOn_ne_nil a as)
      | cons first rest =>
        rw [hparts, List.modifyHead_cons] at h
        rw [hparts] at ih
        obtain rfl | hrest := List.mem_cons.1 h
        · have hne : a ≠ b := fun heq => hb (beq_iff_eq.2 heq.symm)
          exact List.not_mem_cons_of_ne_of_not_mem hne (ih List.mem_cons_self)
        · exact ih (List.mem_cons_of_mem _ hrest)

theorem slash_not_mem_segmentAt (path : String) (i : Nat) :
    '/' ∉ segmentAt (segments path) i := by
  by_cases hi : i < (segments path).length
  · rw [segmentAt_of_lt hi]
    exact not_mem_of_mem_splitOn (List.getElem_mem hi)
  · rw [segmentAt_of_le (Nat.le_of_not_lt hi)]
    exact List.not_mem_nil

theorem ext_segmentAt (hlength : parts.length = others.length)
    (h : ∀ i, segmentAt parts i = segmentAt others i) : parts = others := by
  refine List.ext_getElem hlength fun i hi hother => ?_
  have hat := h i
  rwa [segmentAt_of_lt hi, segmentAt_of_lt hother] at hat

theorem exists_segmentAt_of_mem (h : segment ∈ parts) : ∃ i, segmentAt parts i = segment := by
  obtain ⟨i, hi, rfl⟩ := List.mem_iff_getElem.1 h
  exact ⟨i, segmentAt_of_lt hi⟩

theorem length_segmentLabels (parent : List Char) (start : Nat) :
    (segmentLabels parent start parts).length = parts.length := by
  induction parts generalizing parent start with
  | nil => rfl
  | cons segment rest ih => rw [segmentLabels, List.length_cons, ih, List.length_cons]

theorem segmentAt_segmentLabels (parent : List Char) (start : Nat) :
    segmentAt (segmentLabels parent start parts) i =
      segmentLabel (segmentAt (parent :: parts) i) (segmentAt parts i) (start + i) := by
  induction parts generalizing parent start i with
  -- beyond the last segment both sides are the label of an empty one
  | nil => exact segmentLabel_nil.symm
  | cons segment rest ih =>
    cases i with
    | zero => rfl
    | succ i =>
      have hindex : start + (i + 1) = start + 1 + i := by omega
      rw [hindex]
      exact ih segment (start + 1)

@[simp] theorem length_labelled : (labelled parts).length = parts.length :=
  length_segmentLabels [] 0

/-- A label is that of the segment in its place, behind the segment that the path has before it. -/
theorem segmentAt_labelled :
    segmentAt (labelled parts) i = segmentLabel (parentAt parts i) (segmentAt parts i) i := by
  rw [labelled, segmentAt_segmentLabels, Nat.zero_add]
  rfl

theorem parentAt_eq_of_isKeyword (h : IsKeyword (parentAt (labelled parts) i)) :
    parentAt (labelled parts) i = parentAt parts i := by
  cases i with
  | zero => rfl
  | succ i =>
    change IsKeyword (segmentAt (labelled parts) i) at h
    change segmentAt (labelled parts) i = segmentAt parts i
    rw [segmentAt_labelled] at h ⊢
    exact segmentLabel_eq_of_isKeyword h

theorem segmentAt_ne_nil_of_labelled (h : segmentAt (labelled parts) i ≠ []) :
    segmentAt parts i ≠ [] := by
  intro hnil
  rw [segmentAt_labelled, hnil, segmentLabel_nil] at h
  exact h rfl

/-! ### The normal form -/

/-- Nothing in a path tells one job, one file or one thing that has an identifier from another. -/
structure IsNormal (parts : List (List Char)) : Prop where
  not_isIdentifier : ∀ i, ¬ IsIdentifier (segmentAt parts i)
  job : ∀ i, IsJob (parentAt parts i) (segmentAt parts i) → segmentAt parts i = ":id".toList
  file : ∀ i, IsFile (parentAt parts i) (segmentAt parts i) i →
    segmentAt parts i = ":file".toList

theorem isNormal_labelled (parts : List (List Char)) : IsNormal (labelled parts) where
  not_isIdentifier i := by
    rw [segmentAt_labelled]
    exact not_isIdentifier_segmentLabel
  job i h := by
    have hparent := parentAt_eq_of_isKeyword (.inl h.parent_eq)
    rw [segmentAt_labelled]
    exact segmentLabel_of_isJob
      ⟨hparent ▸ h.parent_eq, segmentAt_ne_nil_of_labelled h.ne_nil⟩
  file i h := by
    have hparent := parentAt_eq_of_isKeyword (.inr h.isStore)
    rw [segmentAt_labelled]
    exact segmentLabel_of_isFile
      ⟨hparent ▸ h.isStore, h.index_eq, segmentAt_ne_nil_of_labelled h.ne_nil⟩

theorem IsNormal.labelled_eq (h : IsNormal parts) : labelled parts = parts := by
  refine ext_segmentAt length_labelled fun i => ?_
  rw [segmentAt_labelled]
  by_cases hjob : IsJob (parentAt parts i) (segmentAt parts i)
  · rw [segmentLabel_of_isJob hjob, h.job i hjob]
  · by_cases hfile : IsFile (parentAt parts i) (segmentAt parts i) i
    · rw [segmentLabel_of_isFile hfile, h.file i hfile]
    · rw [segmentLabel_of_not hjob hfile, if_neg (h.not_isIdentifier i)]

/-! ### Names that others can take the place of -/

/-- A path names a job or a file here, by a name that says nothing of what comes behind it. -/
structure Renamable (parts : List (List Char)) (i : Nat) : Prop where
  names : IsJob (parentAt parts i) (segmentAt parts i) ∨
    IsFile (parentAt parts i) (segmentAt parts i) i
  not_isKeyword : ¬ IsKeyword (segmentAt parts i)

/-- Two paths have the same segments, but for names of jobs and files. -/
structure Alike (parts others : List (List Char)) : Prop where
  length_eq : parts.length = others.length
  agree : ∀ i, segmentAt parts i = segmentAt others i ∨ Renamable parts i ∧ Renamable others i

instance (parts : List (List Char)) (i : Nat) : Decidable (Renamable parts i) :=
  decidable_of_iff ((IsJob (parentAt parts i) (segmentAt parts i) ∨
    IsFile (parentAt parts i) (segmentAt parts i) i) ∧ ¬ IsKeyword (segmentAt parts i))
    ⟨fun h => ⟨h.1, h.2⟩, fun h => ⟨h.names, h.not_isKeyword⟩⟩

theorem Alike.of_lt (hlength : parts.length = others.length)
    (h : ∀ i < parts.length,
      segmentAt parts i = segmentAt others i ∨ Renamable parts i ∧ Renamable others i) :
    Alike parts others where
  length_eq := hlength
  agree i := by
    by_cases hi : i < parts.length
    · exact h i hi
    · have hle := Nat.le_of_not_lt hi
      left
      rw [segmentAt_of_le hle, segmentAt_of_le (hlength ▸ hle)]

instance (parts others : List (List Char)) : Decidable (Alike parts others) :=
  decidable_of_iff (parts.length = others.length ∧ ∀ i < parts.length,
    segmentAt parts i = segmentAt others i ∨ Renamable parts i ∧ Renamable others i)
    ⟨fun h => .of_lt h.1 h.2, fun h => ⟨h.length_eq, fun i _ => h.agree i⟩⟩

theorem Renamable.isKeyword_parent (h : Renamable parts i) : IsKeyword (parentAt parts i) := by
  obtain hjob | hfile := h.names
  · exact .inl hjob.parent_eq
  · exact .inr hfile.isStore

/-- What comes before a segment is the same in both paths, or nothing that matters in either. -/
theorem Alike.parent (h : Alike parts others) (i : Nat) :
    parentAt parts i = parentAt others i ∨
      ¬ IsKeyword (parentAt parts i) ∧ ¬ IsKeyword (parentAt others i) := by
  cases i with
  | zero => exact .inl rfl
  | succ i =>
    obtain heq | ⟨hthis, hthat⟩ := h.agree i
    · exact .inl heq
    · exact .inr ⟨hthis.not_isKeyword, hthat.not_isKeyword⟩

theorem Alike.labelled_eq (h : Alike parts others) : labelled parts = labelled others := by
  refine ext_segmentAt (by rw [length_labelled, length_labelled, h.length_eq]) fun i => ?_
  rw [segmentAt_labelled, segmentAt_labelled]
  -- a name has a keyword before it, so where the paths differ they have the same one
  obtain hparent | ⟨hthis, hthat⟩ := h.parent i
  · obtain heq | ⟨hrenamable, hother⟩ := h.agree i
    · rw [hparent, heq]
    · rw [segmentLabel_of_names hrenamable.names, segmentLabel_of_names hother.names, hparent]
  · obtain heq | ⟨hrenamable, -⟩ := h.agree i
    · rw [segmentLabel_of_not_isKeyword hthis, segmentLabel_of_not_isKeyword hthat, heq]
    · exact absurd hrenamable.isKeyword_parent hthis

/-! ### Labels of paths -/

/-- The segments of a label are the labels of the segments. -/
theorem segments_pathLabel (path : String) :
    segments (pathLabel path) = labelled (segments path) := by
  have hslash : ∀ label ∈ labelled (segments path), '/' ∉ label := by
    intro label hlabel
    obtain ⟨i, rfl⟩ := exists_segmentAt_of_mem hlabel
    rw [segmentAt_labelled]
    exact slash_not_mem_segmentLabel (slash_not_mem_segmentAt path i)
  have hne : labelled (segments path) ≠ [] := by
    rw [← List.length_pos_iff, length_labelled, List.length_pos_iff]
    exact List.splitOn_ne_nil _ _
  rw [segments, pathLabel, String.toList_ofList]
  exact List.splitOn_intercalate _ hslash hne

theorem pathLabel_congr {path other : String}
    (h : labelled (segments path) = labelled (segments other)) :
    pathLabel path = pathLabel other :=
  congrArg (fun parts => String.ofList (['/'].intercalate parts)) h

/-- The label of a path has as many segments as the path, and none of them is a number or has the
shape of a UUID. It is its own label, and it is the label of every path that differs only in names
of jobs and files, unless such a name is a word that says what comes behind it. A segment that is
no such name and no identifier stays as it is. -/
theorem normalizes_pathLabel (path : String) :
    (segments (pathLabel path)).length = (segments path).length ∧
    (∀ segment ∈ segments (pathLabel path), ¬ IsNumber segment ∧ ¬ HasUuidShape segment) ∧
    pathLabel (pathLabel path) = pathLabel path ∧
    (∀ other, Alike (segments path) (segments other) → pathLabel path = pathLabel other) ∧
    ∀ i, ¬ IsJob (parentAt (segments path) i) (segmentAt (segments path) i) →
      ¬ IsFile (parentAt (segments path) i) (segmentAt (segments path) i) i →
      ¬ IsIdentifier (segmentAt (segments path) i) →
      segmentAt (segments (pathLabel path)) i = segmentAt (segments path) i := by
  have hnormal := isNormal_labelled (segments path)
  rw [segments_pathLabel]
  refine ⟨length_labelled, fun segment hsegment => ?_, ?_, fun other halike => ?_,
    fun i hjob hfile hidentifier => ?_⟩
  · obtain ⟨i, rfl⟩ := exists_segmentAt_of_mem hsegment
    exact not_or.1 (hnormal.not_isIdentifier i)
  · apply pathLabel_congr
    rw [segments_pathLabel, hnormal.labelled_eq]
  · exact pathLabel_congr halike.labelled_eq
  · rw [segmentAt_labelled, segmentLabel_of_not hjob hfile, if_neg hidentifier]

/-- A path with a file, a UUID and a job. -/
def promoPath : String := "/outputs/promo.mp4/550e8400-e29b-41d4-a716-446655440000/jobs/last"

/-- The same path with another file and another job. -/
def introPath : String := "/outputs/7/550e8400-e29b-41d4-a716-446655440000/jobs/next"

theorem normalizes_pathLabel_promoPath :
    Alike (segments promoPath) (segments introPath) ∧
    pathLabel promoPath = pathLabel introPath ∧
    pathLabel promoPath = "/outputs/:file/:id/jobs/:id" ∧
    ":file".toList ∈ segments (pathLabel promoPath) ∧
    ¬ IsNumber ":file".toList ∧ ¬ HasUuidShape ":file".toList ∧
    segmentAt (segments (pathLabel promoPath)) 4 = "jobs".toList := by
  have halike : Alike (segments promoPath) (segments introPath) := by decide
  have hmem : ":file".toList ∈ segments (pathLabel promoPath) := by decide
  obtain ⟨-, hfree, -, hlabel, hkept⟩ := normalizes_pathLabel promoPath
  obtain ⟨hnumber, hshape⟩ := hfree _ hmem
  have hjobs : segmentAt (segments promoPath) 4 = "jobs".toList := by decide
  exact ⟨halike, hlabel _ halike, by decide, hmem, hnumber, hshape,
    (hkept 4 (by decide) (by decide) (by decide)).trans hjobs⟩

/-- The name of a file can be a word that says what comes behind it. Then it matters. -/
example : ¬ Alike (segments "/uploads/jobs/frame") (segments "/uploads/clip/frame") ∧
    pathLabel "/uploads/jobs/frame" = "/uploads/:file/:id" ∧
    pathLabel "/uploads/clip/frame" = "/uploads/:file/frame" := by
  decide

end RenderGateway.Measure
