import RenderGateway.Proofs.Graph.OptionReading

/-!
# Drawn text as it is read

An escaped text is given back by a reader that takes the character behind a backslash as it stands,
whatever backslashes, colons and quotes stand side by side in it: of every colon the character in
front is a backslash that nothing escapes, and the last character is no such backslash. So the span
of the text ends at the quote that the filter closes it with, the option ends at the colon behind
that quote, and the other options are read as they are read without the text.
-/

namespace RenderGateway

namespace Graph

/-- A text without its escapes, from the left: a backslash takes the next character as it stands. -/
def unescape : List Char → List Char
  | [] => []
  | '\\' :: c :: cs => c :: unescape cs
  | c :: cs => c :: unescape cs

/-- The text that is drawn: its quotes are typographic ones and its line breaks are blanks. -/
def drawnText (s : String) : String := String.ofList (s.toList.map drawnChar)

/-- The text of the first span and what stands behind the span. -/
def firstSpan (cs : List Char) : List Char × List Char :=
  let inner := (cs.dropWhile (· ≠ '\'')).drop 1
  (inner.takeWhile (· ≠ '\''), (inner.dropWhile (· ≠ '\'')).drop 1)

/-- A text that may stand as the quoted value of an option and stands for another one there. -/
structure Escapes (s escaped : String) : Prop where
  quote_not_mem : '\'' ∉ escaped.toList
  lineFeed_not_mem : '\n' ∉ escaped.toList
  carriageReturn_not_mem : '\r' ∉ escaped.toList
  /-- In front of every colon stands a backslash that is not escaped itself. -/
  colon_escaped : ∀ before behind, escaped.toList = before ++ ':' :: behind →
    ∃ front, before = front ++ ['\\'] ∧ escapedAfter false front = false
  closed : escapedAfter false escaped.toList = false
  unescape_eq : unescape escaped.toList = (drawnText s).toList

theorem unescape_cons_of_ne {c : Char} (h : c ≠ '\\') (cs : List Char) :
    unescape (c :: cs) = c :: unescape cs := by
  rw [unescape]
  exact fun _ _ hc _ => h hc

/-- An escaped character is read as the one that is drawn for it. -/
theorem unescape_escapedChar (c : Char) (ds : List Char) :
    unescape (escapedChar c ++ ds) = drawnChar c :: unescape ds := by
  unfold escapedChar drawnChar
  split_ifs with hescape hquote hcolon hbreak
  all_goals simp_all [unescape, unescape_cons_of_ne]

theorem unescape_escapeText (s : String) :
    unescape (escapeText s).toList = s.toList.map drawnChar := by
  rw [escapeText, String.toList_ofList]
  induction s.toList with
  | nil => rfl
  | cons c cs ih => rw [List.flatMap_cons, unescape_escapedChar, ih, List.map_cons]

theorem lineBreak_not_mem_escapeText {c : Char} (h : c = '\n' ∨ c = '\r') (s : String) :
    c ∉ (escapeText s).toList := by
  intro hmem
  rw [escapeText, String.toList_ofList, List.mem_flatMap] at hmem
  obtain ⟨d, -, hd⟩ := hmem
  unfold escapedChar at hd
  split_ifs at hd with _ _ _ hbreak
  case neg =>
    rw [List.mem_singleton] at hd
    exact hbreak (hd ▸ h)
  all_goals rcases h with rfl | rfl <;> simp at hd

/-- What escapes the character behind it ends in a backslash that is not escaped. -/
theorem exists_of_escapedAfter {cs : List Char} (h : escapedAfter false cs = true) :
    ∃ front, cs = front ++ ['\\'] ∧ escapedAfter false front = false := by
  rcases List.eq_nil_or_concat cs with rfl | ⟨front, c, rfl⟩
  · cases h
  · rw [List.concat_eq_append, escapedAfter_append] at *
    simp only [escapedAfter, Bool.and_eq_true, decide_eq_true_eq, Bool.not_eq_true'] at h
    exact ⟨front, by rw [h.1], h.2⟩

/-- Every colon of an escaped text is escaped, as the text is not split at it. -/
theorem escapedAfter_of_colon {s : String} {before behind : List Char}
    (h : (escapeText s).toList = before ++ ':' :: behind) : escapedAfter false before = true := by
  by_contra hfree
  have hsplit := splitOptions_append_colon (Bool.eq_false_iff.2 hfree) behind
  rw [← h, splitOptions_escapeText] at hsplit
  have hlength := congrArg List.length hsplit
  rw [List.length_singleton, List.length_append] at hlength
  have hfront := List.length_pos_iff.2 (splitOptions_ne_nil false before)
  have hback := List.length_pos_iff.2 (splitOptions_ne_nil false behind)
  omega

theorem escapes_escapeText (s : String) : Escapes s (escapeText s) where
  quote_not_mem := quote_not_mem_escapeText s
  lineFeed_not_mem := lineBreak_not_mem_escapeText (.inl rfl) s
  carriageReturn_not_mem := lineBreak_not_mem_escapeText (.inr rfl) s
  colon_escaped := fun _ _ h => exists_of_escapedAfter (escapedAfter_of_colon h)
  closed := escapedAfter_escapeText s
  unescape_eq := by rw [unescape_escapeText, drawnText, String.toList_ofList]

example : escapeText "C:\\':\n" = "C\\:\\\\\u2019\\: " := by decide

/-- A span without a quote in it ends at the first quote behind it. -/
theorem firstSpan_append {front inner : List Char} (hfront : '\'' ∉ front) (hinner : '\'' ∉ inner)
    (behind : List Char) :
    firstSpan (front ++ '\'' :: (inner ++ '\'' :: behind)) = (inner, behind) := by
  have hpos {cs : List Char} (h : '\'' ∉ cs) : ∀ c ∈ cs, decide (c ≠ '\'') = true :=
    fun c hc => decide_eq_true (ne_of_mem_of_not_mem hc h)
  have hskip : ((front ++ '\'' :: (inner ++ '\'' :: behind)).dropWhile (· ≠ '\'')).drop 1 =
      inner ++ '\'' :: behind := by
    rw [List.dropWhile_append_of_pos (hpos hfront)]
    simp
  rw [firstSpan, hskip, List.takeWhile_append_of_pos (hpos hinner),
    List.dropWhile_append_of_pos (hpos hinner)]
  simp

/-- An option that takes no meaning from what is behind it leaves the others to be read as they are
read without it. -/
theorem ReadAs.readOptions_cons {o : FilterOption} {options : List FilterOption}
    {read : List (String × String)} (h : ReadAs [o] read) (hcontained : o.Contained)
    (hne : options ≠ []) {name : String} (hname : '=' ∉ name.toList) :
    readOptions (name ++ "=" ++ ":".intercalate ((o :: options).map FilterOption.text)) =
      read ++ readOptions (name ++ "=" ++ ":".intercalate (options.map FilterOption.text)) := by
  have hbehind (s : String) : behindName (name ++ "=" ++ s).toList = s.toList := by
    rw [String.append_assoc, String.toList_append, String.toList_append]
    exact behindName_append hname _
  obtain ⟨next, rest, rfl⟩ := List.exists_cons_of_ne_nil hne
  have hjoin : (":".intercalate ((o :: next :: rest).map FilterOption.text)).toList =
      o.text.toList ++ ':' :: (":".intercalate ((next :: rest).map FilterOption.text)).toList := by
    rw [List.map_cons, List.map_cons, String.intercalate_cons_cons, String.toList_append,
      String.toList_append, List.append_assoc]
    rfl
  have hclosed : escapedAfter false o.unquoted = false := h.closed o List.mem_cons_self
  have hread : (splitOptions false o.unquoted).map readOption = read := by
    rw [← h.readings, List.flatMap_singleton, FilterOption.readings]
  rw [readOptions, readOptions, hbehind, hbehind, hjoin, List.filter_append, hcontained.filter_text,
    List.filter_cons_of_pos (by decide), splitOptions_append_colon hclosed, List.map_append, hread]

end Graph

namespace TextOverlay

open RenderGateway.Graph

/-- The options of an overlay behind its text, in the text of its filter. -/
def laterText (o : TextOverlay) : String :=
  ":".intercalate (o.options.tail.map FilterOption.text)

variable (o : TextOverlay)

theorem options_eq_cons :
    o.options = ⟨"text", .quoted (escapeText o.content)⟩ :: o.options.tail := rfl

theorem tail_options_ne_nil : o.options.tail ≠ [] := List.cons_ne_nil _ _

theorem drawText_eq :
    o.drawText = "drawtext=text='" ++ escapeText o.content ++ "':" ++ o.laterText := by
  have htext : (FilterOption.text ⟨"text", .quoted (escapeText o.content)⟩) =
      "text='" ++ escapeText o.content ++ "'" := by
    change "text" ++ "=" ++ ("'" ++ escapeText o.content ++ "'") = _
    simp [← String.append_assoc]
  obtain ⟨next, rest, hrest⟩ := List.exists_cons_of_ne_nil o.tail_options_ne_nil
  rw [drawText, laterText, options_eq_cons, List.map_cons, htext, List.tail_cons, hrest,
    List.map_cons, String.intercalate_cons_cons]
  apply String.toList_inj.1
  simp

/-- The first span of an overlay's filter is its text. -/
theorem firstSpan_drawText :
    firstSpan o.drawText.toList = ((escapeText o.content).toList, ':' :: o.laterText.toList) := by
  rw [← firstSpan_append (by decide : '\'' ∉ "drawtext=text=".toList)
    (quote_not_mem_escapeText o.content), drawText_eq]
  simp

/-- The first option of an overlay is the text that is drawn. -/
theorem readOptions_drawText_eq_cons :
    readOptions o.drawText =
      ("text", drawnText o.content) :: readOptions ("drawtext=" ++ o.laterText) := by
  have hname : "drawtext=" = "drawtext" ++ "=" := by decide
  have htext : ReadAs [⟨"text", .quoted (escapeText o.content)⟩] [("text", drawnText o.content)] :=
    .escaped (by decide) o.content
  have hread := htext.readOptions_cons (o.contained_options _ List.mem_cons_self)
    o.tail_options_ne_nil (show '=' ∉ "drawtext".toList by decide)
  rw [← o.options_eq_cons] at hread
  rw [drawText, laterText, hname, hread, List.singleton_append]

/-- Every text is escaped so that it is given back as it is drawn. As the content of an overlay,
whatever the rest of the overlay is, it ends at its quote and at its colon: the other options are
read as if there were no text. -/
theorem drawn_of_escapeText (s : String) :
    Escapes s (escapeText s) ∧
    firstSpan { o with content := s }.drawText.toList =
      ((escapeText s).toList, ':' :: o.laterText.toList) ∧
    readOptions { o with content := s }.drawText =
      ("text", drawnText s) :: readOptions ("drawtext=" ++ o.laterText) :=
  ⟨escapes_escapeText s, firstSpan_drawText _, readOptions_drawText_eq_cons _⟩

end TextOverlay

end RenderGateway
