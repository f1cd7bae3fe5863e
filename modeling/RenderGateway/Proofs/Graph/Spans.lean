import Mathlib.Data.List.Basic

/-!
# Quoted spans

How an encoder reads the text of a graph: a single quote begins or ends a
quoted span, in which every character stands for itself. `outside` is what is
left of a text without its spans, and `splitOutside` splits at the separators
outside them.
-/

namespace RenderGateway.Graph

/-- Whether a span is open behind a text, if one is or is not in front of it. -/
def quotedAfter : Bool → List Char → Bool
  | quoted, [] => quoted
  | quoted, c :: cs => quotedAfter (if c = '\'' then !quoted else quoted) cs

/-- The characters outside the spans. -/
def outsideFrom : Bool → List Char → List Char
  | _, [] => []
  | quoted, c :: cs =>
    if c = '\'' then outsideFrom (!quoted) cs
    else if quoted then outsideFrom quoted cs
    else c :: outsideFrom quoted cs

/-- The parts between the separators outside the spans. -/
def splitFrom (sep : Char) : Bool → List Char → List (List Char)
  | _, [] => [[]]
  | quoted, c :: cs =>
    if c = '\'' then (splitFrom sep (!quoted) cs).modifyHead (c :: ·)
    else if c = sep ∧ quoted = false then [] :: splitFrom sep quoted cs
    else (splitFrom sep quoted cs).modifyHead (c :: ·)

theorem quotedAfter_append (quoted : Bool) (cs ds : List Char) :
    quotedAfter quoted (cs ++ ds) = quotedAfter (quotedAfter quoted cs) ds := by
  induction cs generalizing quoted with
  | nil => rfl
  | cons c cs ih => exact ih _

theorem outsideFrom_append (quoted : Bool) (cs ds : List Char) :
    outsideFrom quoted (cs ++ ds) =
      outsideFrom quoted cs ++ outsideFrom (quotedAfter quoted cs) ds := by
  induction cs generalizing quoted with
  | nil => rfl
  | cons c cs ih =>
    simp only [List.cons_append, outsideFrom, quotedAfter]
    split_ifs <;> simp [ih]

/-- A text without the separator outside its spans stays in one part. -/
theorem splitFrom_append {sep : Char} {quoted : Bool} {cs : List Char}
    (h : sep ∉ outsideFrom quoted cs) (ds : List Char) :
    splitFrom sep quoted (cs ++ ds) =
      (splitFrom sep (quotedAfter quoted cs) ds).modifyHead (cs ++ ·) := by
  induction cs generalizing quoted with
  | nil =>
    rw [quotedAfter, List.nil_append]
    cases splitFrom sep quoted ds <;> rfl
  | cons c cs ih =>
    simp only [outsideFrom] at h
    simp only [List.cons_append, splitFrom, quotedAfter]
    by_cases hc : c = '\''
    · rw [if_pos hc] at h
      rw [if_pos hc, if_pos hc, ih h, List.modifyHead_modifyHead]
      rfl
    · rw [if_neg hc] at h
      have hsep : ¬(c = sep ∧ quoted = false) := by
        rintro ⟨rfl, rfl⟩
        simp at h
      have hcs : sep ∉ outsideFrom quoted cs := by
        split_ifs at h
        · exact h
        · exact fun hmem => h (List.mem_cons_of_mem _ hmem)
      rw [if_neg hc, if_neg hc, if_neg hsep, ih hcs, List.modifyHead_modifyHead]
      rfl

theorem quotedAfter_of_not_mem {cs : List Char} (h : '\'' ∉ cs) (quoted : Bool) :
    quotedAfter quoted cs = quoted := by
  induction cs with
  | nil => rfl
  | cons c cs ih =>
    simp only [List.mem_cons, not_or] at h
    rw [quotedAfter, if_neg (Ne.symm h.1), ih h.2]

theorem outsideFrom_of_not_mem {cs : List Char} (h : '\'' ∉ cs) (quoted : Bool) :
    outsideFrom quoted cs = if quoted then [] else cs := by
  induction cs with
  | nil => cases quoted <;> rfl
  | cons c cs ih =>
    simp only [List.mem_cons, not_or] at h
    rw [outsideFrom, if_neg (Ne.symm h.1), ih h.2]
    cases quoted <;> rfl

/-- A separator behind a closed part begins the next part. -/
theorem splitFrom_append_cons {sep : Char} (hsep : sep ≠ '\'') {cs : List Char}
    (hclosed : quotedAfter false cs = false) (h : sep ∉ outsideFrom false cs) (ds : List Char) :
    splitFrom sep false (cs ++ sep :: ds) = cs :: splitFrom sep false ds := by
  rw [splitFrom_append h, hclosed, splitFrom, if_neg hsep, if_pos ⟨rfl, rfl⟩,
    List.modifyHead_cons, List.append_nil]

theorem splitFrom_intercalate {sep : Char} (hsep : sep ≠ '\'') {parts : List (List Char)}
    (hne : parts ≠ [])
    (h : ∀ cs ∈ parts, quotedAfter false cs = false ∧ sep ∉ outsideFrom false cs) :
    splitFrom sep false ([sep].intercalate parts) = parts := by
  induction parts with
  | nil => exact absurd rfl hne
  | cons cs rest ih =>
    obtain ⟨⟨hclosed, hcs⟩, hrest⟩ := List.forall_mem_cons.1 h
    cases rest with
    | nil =>
      have hsplit := splitFrom_append hcs []
      rw [List.append_nil, hclosed] at hsplit
      rw [List.intercalate_singleton, hsplit, splitFrom, List.modifyHead_cons, List.append_nil]
    | cons ds rest =>
      rw [List.intercalate_cons_cons, List.append_assoc, List.singleton_append,
        splitFrom_append_cons hsep hclosed hcs, ih (List.cons_ne_nil ds rest) hrest]

/-- What holds of parts and separator and is kept by joining two texts. -/
theorem intercalate_of_append {motive : String → Prop} (hempty : motive "")
    (happend : ∀ s t, motive s → motive t → motive (s ++ t)) {sep : String} (hsep : motive sep)
    {parts : List String} (h : ∀ s ∈ parts, motive s) : motive (sep.intercalate parts) := by
  induction parts with
  | nil => exact hempty
  | cons s rest ih =>
    obtain ⟨hs, hrest⟩ := List.forall_mem_cons.1 h
    cases rest with
    | nil => rwa [String.intercalate_singleton]
    | cons t rest =>
      rw [String.intercalate_cons_cons]
      exact happend _ _ (happend _ _ hs hsep) (ih hrest)

/-- Every span of the text is closed. -/
def Balanced (s : String) : Prop := quotedAfter false s.toList = false

def outside (s : String) : String := String.ofList (outsideFrom false s.toList)

def splitOutside (sep : Char) (s : String) : List String :=
  (splitFrom sep false s.toList).map String.ofList

namespace Balanced

theorem append {s t : String} (hs : Balanced s) (ht : Balanced t) : Balanced (s ++ t) := by
  unfold Balanced at *
  rw [String.toList_append, quotedAfter_append, hs, ht]

theorem outside_append {s : String} (hs : Balanced s) (t : String) :
    outside (s ++ t) = outside s ++ outside t := by
  unfold Balanced at hs
  unfold outside
  rw [String.toList_append, outsideFrom_append, hs, String.ofList_append]

theorem of_not_mem {s : String} (h : '\'' ∉ s.toList) : Balanced s :=
  quotedAfter_of_not_mem h false

end Balanced

theorem outside_of_not_mem {s : String} (h : '\'' ∉ s.toList) : outside s = s := by
  rw [outside, outsideFrom_of_not_mem h]
  exact String.ofList_toList

theorem balanced_quoted {s : String} (h : '\'' ∉ s.toList) : Balanced ("'" ++ s ++ "'") := by
  unfold Balanced
  rw [String.toList_append, String.toList_append, quotedAfter_append, quotedAfter_append,
    quotedAfter_of_not_mem h]
  rfl

theorem outside_quoted {s : String} (h : '\'' ∉ s.toList) : outside ("'" ++ s ++ "'") = "" := by
  have hopen : quotedAfter false "'".toList = true := rfl
  have hspan : outsideFrom true s.toList = [] := outsideFrom_of_not_mem h true
  unfold outside
  rw [String.toList_append, String.toList_append, outsideFrom_append, outsideFrom_append,
    quotedAfter_append, hopen, quotedAfter_of_not_mem h, hspan]
  rfl

theorem outside_intercalate {sep : String} (hsep : '\'' ∉ sep.toList) {parts : List String}
    (h : ∀ s ∈ parts, Balanced s) :
    outside (sep.intercalate parts) = sep.intercalate (parts.map outside) := by
  induction parts with
  | nil => rfl
  | cons s rest ih =>
    obtain ⟨hs, hrest⟩ := List.forall_mem_cons.1 h
    cases rest with
    | nil => simp
    | cons t rest =>
      rw [String.intercalate_cons_cons, (hs.append (.of_not_mem hsep)).outside_append,
        hs.outside_append, outside_of_not_mem hsep, ih hrest]
      simp [String.intercalate_cons_cons]

/-- Parts whose spans are closed come back from the text that joins them. -/
theorem splitOutside_intercalate {sep : Char} (hsep : sep ≠ '\'') {parts : List String}
    (hne : parts ≠ []) (h : ∀ s ∈ parts, Balanced s ∧ sep ∉ (outside s).toList) :
    splitOutside sep ((String.singleton sep).intercalate parts) = parts := by
  have hparts : ∀ cs ∈ parts.map String.toList,
      quotedAfter false cs = false ∧ sep ∉ outsideFrom false cs := by
    intro cs hcs
    obtain ⟨s, hs, rfl⟩ := List.mem_map.1 hcs
    obtain ⟨hbalanced, hmem⟩ := h s hs
    rw [outside, String.toList_ofList] at hmem
    exact ⟨hbalanced, hmem⟩
  rw [splitOutside, String.toList_intercalate, String.toList_singleton,
    splitFrom_intercalate hsep (by simpa using hne) hparts, List.map_map]
  simp [Function.comp_def]

end RenderGateway.Graph
