import Mathlib.Data.List.TakeDrop
import Mathlib.Data.List.TakeWhile
import RenderGateway.Plan.Check

/-!
# Texts that an overlay may carry

A color is a name or `#RRGGBB` with an opacity behind an at sign if there is one. An expression is
not blank and has none of the characters in `graphSyntax`. `syntaxIssues_eq_nil_iff` says that an
overlay is passed exactly if its colors and expressions are of these forms.
-/

namespace RenderGateway

namespace TextOverlay

open Issue (report_eq_nil_iff)

/-- A name of letters, digits and number signs, and an opacity behind it if there is one. -/
def IsColorText (s : String) : Prop :=
  ∃ name, name ≠ [] ∧ (∀ c ∈ name, isColorChar c = true) ∧
    (s.toList = name ∨ ∃ alpha, alpha ≠ [] ∧ (∀ c ∈ alpha, isAlphaChar c = true) ∧
      s.toList = name ++ '@' :: alpha)

/-- Something other than blanks, without the characters that structure a graph. -/
def IsExpressionText (s : String) : Prop :=
  (∃ c ∈ s.toList, Text.isBlank c = false) ∧
    ∀ c ∈ s.toList, c ∉ [';', '[', ']', ',', '\'', '\\']

/-- Colors and expressions of an overlay have their forms. -/
structure SyntaxValid (o : TextOverlay) : Prop where
  fontColor : IsColorText o.fontColor
  background : ∀ b, o.background = some b → IsColorText b.color ∧ '@' ∉ b.color.toList
  x : ∀ s, o.x = some s → IsExpressionText s
  y : ∀ s, o.y = some s → IsExpressionText s
  fontFile : ∀ s, o.fontFile = some s → IsExpressionText s

theorem isColor_iff {s : String} : isColor s = true ↔ IsColorText s := by
  have hat : isColorChar '@' = false := by decide
  unfold isColor
  rw [List.span_eq_takeWhile_dropWhile]
  constructor
  · intro h
    simp only [Bool.and_eq_true, decide_eq_true_eq] at h
    obtain ⟨hname, hrest⟩ := h
    have hsplit := List.takeWhile_append_dropWhile (p := isColorChar) (l := s.toList)
    refine ⟨s.toList.takeWhile isColorChar, hname, fun c => List.mem_takeWhile_imp, ?_⟩
    split at hrest
    · next heq =>
      rw [heq, List.append_nil] at hsplit
      exact .inl hsplit.symm
    · next alpha heq =>
      rw [Bool.and_eq_true, decide_eq_true_eq, List.all_eq_true] at hrest
      rw [heq] at hsplit
      exact .inr ⟨alpha, hrest.1, hrest.2, hsplit.symm⟩
    · cases hrest
  · rintro ⟨name, hne, hname, hs | ⟨alpha, halpha, hall, hs⟩⟩
    · have hrest : name.dropWhile isColorChar = [] := List.dropWhile_eq_nil_iff.2 hname
      have htake : name.takeWhile isColorChar = name := List.takeWhile_eq_self_iff.2 hname
      simp [hs, hrest, htake, hne]
    · have htake : (name ++ '@' :: alpha).takeWhile isColorChar = name := by
        rw [List.takeWhile_append_of_pos hname, List.takeWhile_cons, hat]
        simp
      have hrest : (name ++ '@' :: alpha).dropWhile isColorChar = '@' :: alpha := by
        rw [List.dropWhile_append_of_pos hname, List.dropWhile_cons, hat]
        simp
      simpa [hs, hrest, htake, hne, halpha] using hall

theorem isExpression_iff {s : String} : isExpression s = true ↔ IsExpressionText s := by
  simp [isExpression, IsExpressionText, Text.isBlankText, graphSyntax]

theorem expressionIssues_eq_nil_iff {field : String} {value : Option String} :
    expressionIssues field value = [] ↔ ∀ s, value = some s → IsExpressionText s := by
  cases value with
  | none => simp [expressionIssues]
  | some s => simp [expressionIssues, isExpression_iff]

theorem syntaxValid_iff {o : TextOverlay} : o.SyntaxValid ↔
    (((IsColorText o.fontColor ∧
      ∀ b, o.background = some b → IsColorText b.color ∧ '@' ∉ b.color.toList) ∧
      ∀ s, o.x = some s → IsExpressionText s) ∧ ∀ s, o.y = some s → IsExpressionText s) ∧
      ∀ s, o.fontFile = some s → IsExpressionText s := by
  constructor
  · intro h
    exact ⟨⟨⟨⟨h.fontColor, h.background⟩, h.x⟩, h.y⟩, h.fontFile⟩
  · rintro ⟨⟨⟨⟨hcolor, hback⟩, hx⟩, hy⟩, hfont⟩
    exact ⟨hcolor, hback, hx, hy, hfont⟩

/-- An overlay without syntax issues is one whose texts have their forms. -/
theorem syntaxIssues_eq_nil_iff {o : TextOverlay} : o.syntaxIssues = [] ↔ o.SyntaxValid := by
  unfold syntaxIssues
  simp only [List.append_eq_nil_iff, report_eq_nil_iff, expressionIssues_eq_nil_iff,
    Bool.not_eq_false', isColor_iff, syntaxValid_iff]
  refine and_congr_left' (and_congr_left' (and_congr_left' (and_congr_right' ?_)))
  cases o.background with
  | none => simp
  | some b => simp [isColor_iff]

end TextOverlay

end RenderGateway
