import RenderGateway.Proofs.Graph.OptionReading
import RenderGateway.Proofs.Plan.OverlaySyntax

/-!
# The options of an overlay as they are read

An overlay without syntax issues keeps its texts from leaving the node, but not its options from
each other: the check lets a colon pass, and a colon in a position or in the path of a font ends
the option that it stands in. `options_of_syntaxIssues` says that nothing else can go wrong: every
such colon begins one more option, and without one an overlay is read as it is meant.
-/

namespace RenderGateway.TextOverlay

open RenderGateway.Graph

/-- The options of an overlay, with its expressions read in some way. -/
def optionsBy (read : String → String → List (String × String)) (o : TextOverlay) :
    List (String × String) :=
  [("text", String.ofList (o.content.toList.map drawnChar)), ("expansion", "none")] ++
  (match o.fontFile with
    | some font => read "fontfile" font
    | none => []) ++
  ([("fontsize", toString o.fontSize), ("fontcolor", o.fontColor)] ++
    read "x" (o.x.getD "(w-text_w)/2") ++ read "y" (o.y.getD o.position.expression)) ++
  (match o.background with
    | some b => [("box", "1"), ("boxcolor", b.color ++ "@" ++ factor b.opacity),
        ("boxborderw", toString b.padding)]
    | none => []) ++
  [("enable", "gte(t," ++ seconds o.timelineStart.toInt ++ ")*lt(t," ++
    seconds o.timelineEnd.toInt ++ ")")]

/-- The options that an overlay means. -/
def intended (o : TextOverlay) : List (String × String) := o.optionsBy fun key s => [(key, s)]

/-- The colons in the position and the font of an overlay. -/
def colons (o : TextOverlay) : Nat :=
  (o.fontFile.getD "").toList.count ':' + (o.x.getD "").toList.count ':' +
    (o.y.getD "").toList.count ':'

/-- What a color is made of stands for itself. -/
theorem IsColorText.literal {s : String} (h : IsColorText s) : Literal s := by
  intro c hc
  have hchars : ['\'', '\\', ':'].all
      (fun c => !isColorChar c && c ≠ '@' && !isAlphaChar c) = true := by decide
  obtain ⟨⟨hcolor, hat⟩, halpha⟩ := by simpa using List.all_eq_true.1 hchars c hc
  obtain ⟨name, _, hname, hs | ⟨alpha, _, hall, hs⟩⟩ := h
  · rw [hs]
    exact fun hmem => by simp [hname c hmem] at hcolor
  · rw [hs, List.mem_append, List.mem_cons, not_or, not_or]
    exact ⟨fun hmem => by simp [hname c hmem] at hcolor, hat,
      fun hmem => by simp [hall c hmem] at halpha⟩

theorem readAs_expression {key s : String} (hkey : IsKey key) (h : IsExpressionText s) :
    ReadAs [⟨key, quotedExpression s⟩] (readExpression key s) :=
  .expression hkey (fun hmem => h.2 _ hmem (by decide)) fun hmem => h.2 _ hmem (by decide)

/-- An expression of the overlay's own, or the one that stands for it, is split at its colons. -/
theorem readAs_optional {key : String} (hkey : IsKey key) {value : Option String}
    (h : ∀ s, value = some s → IsExpressionText s) {default : String} (hdefault : Literal default) :
    ReadAs [⟨key, quotedExpression (value.getD default)⟩]
      (readExpression key (value.getD default)) := by
  cases value with
  | none => exact .expression hkey (hdefault _ (by decide)) (hdefault _ (by decide))
  | some s => exact readAs_expression hkey (h s rfl)

theorem literal_position (p : TextPosition) : Literal p.expression := by
  cases p <;> decide

variable {o : TextOverlay}

/-- What an overlay that passes the check is read as. -/
theorem readAs_options (h : o.SyntaxValid) : ReadAs o.options (o.optionsBy readExpression) := by
  have hcontent : ReadAs [⟨"text", .quoted (escapeText o.content)⟩, ⟨"expansion", .bare "none"⟩]
      [("text", String.ofList (o.content.toList.map drawnChar)), ("expansion", "none")] :=
    (ReadAs.escaped (by decide) o.content).append (.literal (by decide) (by decide))
  have hfont : ReadAs
      (match o.fontFile with
        | some font => [⟨"fontfile", quotedExpression font⟩]
        | none => [])
      (match o.fontFile with
        | some font => readExpression "fontfile" font
        | none => []) := by
    cases hf : o.fontFile with
    | none => exact .nil
    | some font => exact readAs_expression (by decide) (h.fontFile font hf)
  have hsize : ReadAs [⟨"fontsize", .bare (toString o.fontSize)⟩]
      [("fontsize", toString o.fontSize)] :=
    .literal (by decide) (.of_isNumberText (isNumberText_uint32 o.fontSize))
  have hcolor : ReadAs [⟨"fontcolor", quotedExpression o.fontColor⟩] [("fontcolor", o.fontColor)] :=
    .literalExpression (by decide) h.fontColor.literal
  have hx := readAs_optional (by decide : IsKey "x") h.x (by decide : Literal "(w-text_w)/2")
  have hy := readAs_optional (by decide : IsKey "y") h.y (literal_position o.position)
  have hbackground : ReadAs
      (match o.background with
        | some b => b.options
        | none => [])
      (match o.background with
        | some b => [("box", "1"), ("boxcolor", b.color ++ "@" ++ factor b.opacity),
            ("boxborderw", toString b.padding)]
        | none => []) := by
    cases hb : o.background with
    | none => exact .nil
    | some b =>
      have hbox : ReadAs [⟨"box", .bare "1"⟩] [("box", "1")] := .literal (by decide) (by decide)
      have hcolor : Literal (b.color ++ "@" ++ factor b.opacity) :=
        ((h.background b hb).1.literal.append (by decide)).append
          (.of_isNumberText (isNumberText_factor b.opacity))
      have hborder : ReadAs [⟨"boxborderw", .bare (toString b.padding)⟩]
          [("boxborderw", toString b.padding)] :=
        .literal (by decide) (.of_isNumberText (isNumberText_uint32 b.padding))
      exact (hbox.append (.literalExpression (by decide) hcolor)).append hborder
  exact (((hcontent.append hfont).append (((hsize.append hcolor).append hx).append hy)).append
    hbackground).append (readAs_enable _ _)

theorem readOptions_drawText (h : o.SyntaxValid) :
    readOptions o.drawText = o.optionsBy readExpression := by
  have hne : o.options ≠ [] := by simp [options]
  have hname : "drawtext=" = "drawtext" ++ "=" := by decide
  rw [drawText, hname]
  exact (readAs_options h).readOptions_eq hne o.contained_options (by decide)

section Colons

/-- What stands for an expression has no colon. -/
theorem count_getD {value : Option String} {default : String} (hdefault : Literal default) :
    (value.getD default).toList.count ':' = (value.getD "").toList.count ':' := by
  cases value with
  | none => exact List.count_eq_zero_of_not_mem (hdefault ':' (by decide))
  | some s => rfl

theorem count_x : (o.x.getD "(w-text_w)/2").toList.count ':' = (o.x.getD "").toList.count ':' :=
  count_getD (by decide)

theorem count_y :
    (o.y.getD o.position.expression).toList.count ':' = (o.y.getD "").toList.count ':' :=
  count_getD (literal_position o.position)

/-- Every colon of an expression begins one more option. -/
theorem length_optionsBy_readExpression :
    (o.optionsBy readExpression).length = o.intended.length + o.colons := by
  have hfont : (match o.fontFile with
        | some font => readExpression "fontfile" font
        | none => []).length = (match o.fontFile with
        | some font => [("fontfile", font)]
        | none => []).length + (o.fontFile.getD "").toList.count ':' := by
    cases o.fontFile with
    | none => rfl
    | some font =>
      rw [length_readExpression (by decide), Nat.add_comm]
      rfl
  have hx := length_readExpression (by decide : IsKey "x") (s := o.x.getD "(w-text_w)/2")
  have hy := length_readExpression (by decide : IsKey "y") (s := o.y.getD o.position.expression)
  rw [count_x] at hx
  rw [count_y] at hy
  unfold intended optionsBy colons
  simp only [List.length_append, List.length_cons, List.length_nil, hfont, hx, hy]
  omega

theorem optionsBy_readExpression (h : o.colons = 0) :
    o.optionsBy readExpression = o.intended := by
  obtain ⟨⟨hfont, hx⟩, hy⟩ : (_ = 0 ∧ _ = 0) ∧ _ = 0 := by
    simpa only [colons, Nat.add_eq_zero_iff] using h
  rw [← count_x, List.count_eq_zero] at hx
  rw [← count_y, List.count_eq_zero] at hy
  have hfile : (match o.fontFile with
        | some font => readExpression "fontfile" font
        | none => []) = (match o.fontFile with
        | some font => [("fontfile", font)]
        | none => []) := by
    cases hf : o.fontFile with
    | none => rfl
    | some font =>
      rw [hf, List.count_eq_zero] at hfont
      exact readExpression_of_not_mem (by decide) hfont
  unfold intended optionsBy
  rw [hfile, readExpression_of_not_mem (by decide) hx, readExpression_of_not_mem (by decide) hy]

end Colons

theorem nodup_keys_intended : (o.intended.map Prod.fst).Nodup := by
  unfold intended optionsBy
  cases o.fontFile <;> cases o.background <;>
  · simp only [List.map_append, List.map_cons, List.map_nil]
    decide

/-- An overlay without syntax issues is read as it is meant, each option once, exactly if its
position and its font have no colon. Every colon that they have begins one more option. -/
theorem options_of_syntaxIssues (h : o.syntaxIssues = []) :
    (readOptions o.drawText = o.intended ↔ o.colons = 0) ∧
    (readOptions o.drawText).length = o.intended.length + o.colons ∧
    (o.intended.map Prod.fst).Nodup := by
  have hread := readOptions_drawText (syntaxIssues_eq_nil_iff.1 h)
  have hlength := congrArg List.length hread
  rw [length_optionsBy_readExpression] at hlength
  refine ⟨⟨fun hmeant => ?_, fun hcolons => ?_⟩, hlength, nodup_keys_intended⟩
  · rw [hmeant] at hlength
    omega
  · rw [hread, optionsBy_readExpression hcolons]

/-- A text that is drawn at an abscissa of its own. -/
def placed (x : String) : TextOverlay where
  id := "t1"
  content := "Hello"
  timelineStart := 0
  timelineEnd := 1000
  fontSize := 24
  fontColor := "white"
  fontFile := none
  position := .bottom
  x := some x
  y := none
  background := none

/-- An abscissa can name a file to draw the text of. -/
theorem syntaxIssues_placed_textfile : (placed "w/2:textfile=/etc/passwd").syntaxIssues = [] ∧
    readOptions (placed "w/2:textfile=/etc/passwd").drawText ≠
      (placed "w/2:textfile=/etc/passwd").intended ∧
    ("textfile", "/etc/passwd") ∈ readOptions (placed "w/2:textfile=/etc/passwd").drawText := by
  have haccepted : (placed "w/2:textfile=/etc/passwd").syntaxIssues = [] := by decide +kernel
  rw [readOptions_drawText (syntaxIssues_eq_nil_iff.1 haccepted)]
  refine ⟨haccepted, fun heq => ?_, by decide +kernel⟩
  have hlength := congrArg List.length heq
  rw [length_optionsBy_readExpression] at hlength
  exact absurd hlength (by decide +kernel)

theorem options_of_placed_center : (placed "w/2").syntaxIssues = [] ∧
    readOptions (placed "w/2").drawText = (placed "w/2").intended := by
  have haccepted : (placed "w/2").syntaxIssues = [] := by decide +kernel
  exact ⟨haccepted, (options_of_syntaxIssues haccepted).1.2 (by decide +kernel)⟩

end RenderGateway.TextOverlay
