import Mathlib.Data.List.TakeWhile
import RenderGateway.Proofs.Graph.FilterText

/-!
# Options as they are read

How an encoder reads the options of a filter. The graph has taken the quotes away, so they do not
protect a value any more: an option ends at the next colon, unless a backslash stands in front of
it, and its key ends at the first equals sign. A text without backslashes is split at all its
colons, and an escaped text is not split at all.
-/

namespace RenderGateway.Graph

/-- Whether the next character is escaped behind a text, if it is or is not in front of it. -/
def escapedAfter : Bool → List Char → Bool
  | escaped, [] => escaped
  | escaped, c :: cs => escapedAfter (c = '\\' && !escaped) cs

/-- The texts between the colons that are not escaped, without the backslashes that escape. -/
def splitOptions : Bool → List Char → List (List Char)
  | _, [] => [[]]
  | true, c :: cs => (splitOptions false cs).modifyHead (c :: ·)
  | false, c :: cs =>
    if c = '\\' then splitOptions true cs
    else if c = ':' then [] :: splitOptions false cs
    else (splitOptions false cs).modifyHead (c :: ·)

/-- What stands behind the first equals sign. -/
def behindName (cs : List Char) : List Char := (cs.dropWhile (· ≠ '=')).drop 1

/-- The key and the value of an option. -/
def readOption (cs : List Char) : String × String :=
  (String.ofList (cs.takeWhile (· ≠ '=')), String.ofList (behindName cs))

/-- The options of a filter: what is behind its name and has lost its quotes is split. -/
def readOptions (filter : String) : List (String × String) :=
  (splitOptions false ((behindName filter.toList).filter (· ≠ '\''))).map readOption

theorem escapedAfter_append (escaped : Bool) (cs ds : List Char) :
    escapedAfter escaped (cs ++ ds) = escapedAfter (escapedAfter escaped cs) ds := by
  induction cs generalizing escaped with
  | nil => rfl
  | cons c cs ih => exact ih _

theorem escapedAfter_of_not_mem {cs : List Char} (h : '\\' ∉ cs) :
    escapedAfter false cs = false := by
  induction cs with
  | nil => rfl
  | cons c cs ih =>
    rw [List.mem_cons, not_or] at h
    rw [escapedAfter, decide_eq_false (Ne.symm h.1), Bool.false_and, ih h.2]

theorem splitOptions_ne_nil (escaped : Bool) (cs : List Char) : splitOptions escaped cs ≠ [] := by
  induction cs generalizing escaped with
  | nil => simp [splitOptions]
  | cons c cs ih =>
    cases escaped with
    | true => simpa [splitOptions] using ih false
    | false =>
      rw [splitOptions]
      split_ifs
      · exact ih true
      · exact List.cons_ne_nil _ _
      · simpa using ih false

theorem modifyHead_append {α : Type} {f : α → α} {as : List α} (h : as ≠ []) (bs : List α) :
    (as ++ bs).modifyHead f = as.modifyHead f ++ bs := by
  cases as with
  | nil => exact absurd rfl h
  | cons a as => rfl

/-- A colon behind a text that does not escape it ends the last option of the text. -/
theorem splitOptions_append_colon {escaped : Bool} {cs : List Char}
    (h : escapedAfter escaped cs = false) (ds : List Char) :
    splitOptions escaped (cs ++ ':' :: ds) = splitOptions escaped cs ++ splitOptions false ds := by
  induction cs generalizing escaped with
  | nil =>
    cases h
    rfl
  | cons c cs ih =>
    rw [escapedAfter] at h
    rw [List.cons_append]
    cases escaped with
    | true =>
      rw [Bool.not_true, Bool.and_false] at h
      rw [splitOptions, splitOptions, ih h, modifyHead_append (splitOptions_ne_nil false cs)]
    | false =>
      rw [Bool.not_false, Bool.and_true] at h
      rw [splitOptions, splitOptions]
      split_ifs with hescape hcolon
      · exact ih (by rwa [decide_eq_true hescape] at h)
      · rw [ih (by rwa [decide_eq_false hescape] at h), List.cons_append]
      · rw [ih (by rwa [decide_eq_false hescape] at h),
          modifyHead_append (splitOptions_ne_nil false cs)]

/-- Texts that escape nothing behind them are split one by one. -/
theorem splitOptions_intercalate {parts : List (List Char)} (hne : parts ≠ [])
    (h : ∀ cs ∈ parts, escapedAfter false cs = false) :
    splitOptions false ([':'].intercalate parts) = parts.flatMap (splitOptions false) := by
  induction parts with
  | nil => exact absurd rfl hne
  | cons cs rest ih =>
    obtain ⟨hcs, hrest⟩ := List.forall_mem_cons.1 h
    cases rest with
    | nil => simp
    | cons ds rest =>
      rw [List.intercalate_cons_cons, List.append_assoc, List.singleton_append,
        splitOptions_append_colon hcs, ih (List.cons_ne_nil ds rest) hrest]
      rfl

/-- Without a backslash every colon counts. -/
theorem splitOptions_eq_splitOn {cs : List Char} (h : '\\' ∉ cs) :
    splitOptions false cs = cs.splitOn ':' := by
  induction cs with
  | nil => rfl
  | cons c cs ih =>
    rw [List.mem_cons, not_or] at h
    rw [splitOptions, if_neg (Ne.symm h.1), ih h.2, List.splitOn_cons_eq_if_modifyHead]
    simp only [beq_iff_eq]

theorem length_splitOn {α : Type} [DecidableEq α] (a : α) (as : List α) :
    (as.splitOn a).length = as.count a + 1 := by
  induction as with
  | nil => rfl
  | cons b as ih =>
    rw [List.splitOn_cons_eq_if_modifyHead, List.count_cons]
    split_ifs with h
    · rw [List.length_cons, ih]
    · rw [List.length_modifyHead, ih, Nat.add_zero]

/-- A text that neither escapes nor ends an option is the front of the one that it stands in. -/
theorem splitOptions_append {cs : List Char} (hescape : '\\' ∉ cs) (hcolon : ':' ∉ cs)
    (ds : List Char) :
    splitOptions false (cs ++ ds) = (splitOptions false ds).modifyHead (cs ++ ·) := by
  induction cs with
  | nil => exact (congrFun List.modifyHead_id (splitOptions false ds)).symm
  | cons c cs ih =>
    rw [List.mem_cons, not_or] at hescape hcolon
    rw [List.cons_append, splitOptions, if_neg (Ne.symm hescape.1), if_neg (Ne.symm hcolon.1),
      ih hescape.2 hcolon.2, List.modifyHead_modifyHead]
    rfl

/-- How a character of a drawn text is read again. -/
def drawnChar (c : Char) : Char :=
  if c = '\'' then '\u2019' else if c = '\n' ∨ c = '\r' then ' ' else c

/-- An escaped character is a character of the option that it stands in. -/
theorem splitOptions_escapedChar (c : Char) (ds : List Char) :
    splitOptions false (escapedChar c ++ ds) =
      (splitOptions false ds).modifyHead (drawnChar c :: ·) := by
  unfold escapedChar drawnChar
  split_ifs <;> simp_all [splitOptions]

theorem escapedAfter_escapedChar (c : Char) : escapedAfter false (escapedChar c) = false := by
  unfold escapedChar
  split_ifs <;> simp_all [escapedAfter]

/-- An escaped text is read as one. -/
theorem splitOptions_escapeText (s : String) :
    splitOptions false (escapeText s).toList = [s.toList.map drawnChar] := by
  rw [escapeText, String.toList_ofList]
  induction s.toList with
  | nil => rfl
  | cons c cs ih =>
    rw [List.flatMap_cons, splitOptions_escapedChar, ih]
    rfl

theorem escapedAfter_escapeText (s : String) :
    escapedAfter false (escapeText s).toList = false := by
  rw [escapeText, String.toList_ofList]
  induction s.toList with
  | nil => rfl
  | cons c cs ih => rw [List.flatMap_cons, escapedAfter_append, escapedAfter_escapedChar, ih]

section Names

variable {name : String} (h : '=' ∉ name.toList) (cs : List Char)
include h

theorem behindName_append : behindName (name.toList ++ '=' :: cs) = cs := by
  rw [behindName, List.dropWhile_append_of_pos fun c hc =>
    decide_eq_true (ne_of_mem_of_not_mem hc h)]
  simp

/-- A key ends at the first equals sign. -/
theorem readOption_append :
    readOption (name.toList ++ '=' :: cs) = (name, String.ofList cs) := by
  have hname : (name.toList ++ '=' :: cs).takeWhile (· ≠ '=') = name.toList := by
    rw [List.takeWhile_append_of_pos fun c hc => decide_eq_true (ne_of_mem_of_not_mem hc h)]
    simp
  rw [readOption, hname, behindName_append h, String.ofList_toList]

end Names

theorem filter_intercalate {α : Type} {p : α → Bool} {sep : α} (hsep : p sep = true)
    (parts : List (List α)) :
    ([sep].intercalate parts).filter p = [sep].intercalate (parts.map (List.filter p)) := by
  induction parts with
  | nil => rfl
  | cons as rest ih =>
    cases rest with
    | nil => simp
    | cons bs rest =>
      rw [List.intercalate_cons_cons, List.filter_append, List.filter_append, ih,
        List.filter_singleton, hsep]
      simp [List.intercalate_cons_cons]

namespace OptionValue

/-- A value without the quotes that it stands between. -/
def unquoted : OptionValue → String
  | bare s => s
  | quoted s => s

theorem Contained.filter_text {v : OptionValue} (h : v.Contained) :
    v.text.toList.filter (· ≠ '\'') = v.unquoted.toList := by
  have hself {s : String} (hs : '\'' ∉ s.toList) : s.toList.filter (· ≠ '\'') = s.toList :=
    List.filter_eq_self.2 fun c hc => decide_eq_true (ne_of_mem_of_not_mem hc hs)
  cases v with
  | bare s => exact hself (Plain.quote_not_mem h)
  | quoted s =>
    rw [text, String.toList_append, String.toList_append, List.filter_append, List.filter_append,
      hself h]
    exact List.append_nil _

theorem unquoted_quotedExpression {s : String} (h : '\'' ∉ s.toList) :
    (quotedExpression s).unquoted = s := by
  change String.ofList (s.toList.filter fun c => c ≠ '\'') = s
  rw [List.filter_eq_self.2 fun c hc => decide_eq_true (ne_of_mem_of_not_mem hc h),
    String.ofList_toList]

end OptionValue

namespace FilterOption

/-- An option without the quotes in it. -/
def unquoted (o : FilterOption) : List Char := o.key.toList ++ '=' :: o.value.unquoted.toList

/-- What an option is read as, together with what its value begins. -/
def readings (o : FilterOption) : List (String × String) :=
  (splitOptions false o.unquoted).map readOption

theorem Contained.filter_text {o : FilterOption} (h : o.Contained) :
    o.text.toList.filter (· ≠ '\'') = o.unquoted := by
  have hkey : (o.key ++ "=").toList.filter (· ≠ '\'') = o.key.toList ++ ['='] := by
    rw [String.toList_append, List.filter_append]
    congr 1
    exact List.filter_eq_self.2 fun c hc =>
      decide_eq_true (ne_of_mem_of_not_mem hc h.key.quote_not_mem)
  rw [text, String.toList_append, List.filter_append, hkey, h.value.filter_text, unquoted,
    List.append_assoc]
  rfl

end FilterOption

/-- A name that no option ends in and no value begins in. -/
def IsKey (s : String) : Prop := ∀ c ∈ ['\\', ':', '='], c ∉ s.toList

instance (s : String) : Decidable (IsKey s) :=
  List.decidableBAll (fun c => c ∉ s.toList) _

namespace IsKey

variable {key : String} (h : IsKey key)
include h

theorem escape_not_mem : '\\' ∉ (key ++ "=").toList := by
  simpa using h '\\' (by decide)

theorem colon_not_mem : ':' ∉ (key ++ "=").toList := by
  simpa using h ':' (by decide)

theorem equals_not_mem : '=' ∉ key.toList := h '=' (by decide)

end IsKey

theorem FilterOption.unquoted_eq {key : String} {value : OptionValue} :
    unquoted ⟨key, value⟩ = (key ++ "=").toList ++ value.unquoted.toList := by
  rw [unquoted, String.toList_append, List.append_assoc]
  rfl

/-- What an expression without backslashes is read as: one option up to its first colon, and one
behind each of its colons. -/
def readExpression (key s : String) : List (String × String) :=
  ((key ++ "=" ++ s).toList.splitOn ':').map readOption

theorem readExpression_of_not_mem {key s : String} (hkey : IsKey key) (hcolon : ':' ∉ s.toList) :
    readExpression key s = [(key, s)] := by
  have hnot : ':' ∉ (key ++ "=" ++ s).toList := by
    rw [String.toList_append, List.mem_append, not_or]
    exact ⟨hkey.colon_not_mem, hcolon⟩
  have hoption : (key ++ "=" ++ s).toList = key.toList ++ '=' :: s.toList := by
    rw [String.append_assoc, String.toList_append, String.toList_append]
    rfl
  rw [readExpression, List.splitOn_eq_singleton hnot, List.map_singleton, hoption,
    readOption_append hkey.equals_not_mem, String.ofList_toList]

theorem length_readExpression {key s : String} (hkey : IsKey key) :
    (readExpression key s).length = s.toList.count ':' + 1 := by
  rw [readExpression, List.length_map, length_splitOn, String.toList_append, List.count_append,
    List.count_eq_zero_of_not_mem hkey.colon_not_mem, Nat.zero_add]

/-- A text that stands for itself as the value of an option. -/
def Literal (s : String) : Prop := ∀ c ∈ ['\'', '\\', ':'], c ∉ s.toList

instance (s : String) : Decidable (Literal s) :=
  List.decidableBAll (fun c => c ∉ s.toList) _

namespace Literal

theorem append {s t : String} (hs : Literal s) (ht : Literal t) : Literal (s ++ t) := by
  intro c hc
  rw [String.toList_append, List.mem_append, not_or]
  exact ⟨hs c hc, ht c hc⟩

theorem of_isNumberText {s : String} (h : IsNumberText s) : Literal s :=
  fun _ => h.not_mem_of_all (by decide)

end Literal

/-- Options that take no meaning from what is behind them, and what they are read as. -/
structure ReadAs (options : List FilterOption) (read : List (String × String)) : Prop where
  closed : ∀ o ∈ options, escapedAfter false o.unquoted = false
  readings : options.flatMap FilterOption.readings = read

namespace ReadAs

theorem nil : ReadAs [] [] := ⟨fun _ h => absurd h List.not_mem_nil, rfl⟩

theorem append {options others : List FilterOption} {read rest : List (String × String)}
    (h : ReadAs options read) (hrest : ReadAs others rest) :
    ReadAs (options ++ others) (read ++ rest) where
  closed := List.forall_mem_append.2 ⟨h.closed, hrest.closed⟩
  readings := by rw [List.flatMap_append, h.readings, hrest.readings]

section Option

variable {key : String} (hkey : IsKey key)
include hkey

/-- An option whose value is not split is read as its key and what the value is read as. -/
theorem of_split_eq_singleton {value : OptionValue} {cs : List Char}
    (hclosed : escapedAfter false value.unquoted.toList = false)
    (hsplit : splitOptions false value.unquoted.toList = [cs]) :
    ReadAs [⟨key, value⟩] [(key, String.ofList cs)] where
  closed := by
    rw [List.forall_mem_singleton, FilterOption.unquoted_eq, escapedAfter_append,
      escapedAfter_of_not_mem hkey.escape_not_mem, hclosed]
  readings := by
    have hoption : splitOptions false (FilterOption.unquoted ⟨key, value⟩) =
        [key.toList ++ '=' :: cs] := by
      rw [FilterOption.unquoted_eq, splitOptions_append hkey.escape_not_mem hkey.colon_not_mem,
        hsplit, List.modifyHead_cons, String.toList_append, List.append_assoc]
      rfl
    rw [List.flatMap_singleton, FilterOption.readings, hoption, List.map_singleton,
      readOption_append hkey.equals_not_mem]

theorem literal {value : OptionValue} (h : Literal value.unquoted) :
    ReadAs [⟨key, value⟩] [(key, value.unquoted)] := by
  have hescape : '\\' ∉ value.unquoted.toList := h _ (by decide)
  have hsplit : splitOptions false value.unquoted.toList = [value.unquoted.toList] := by
    rw [splitOptions_eq_splitOn hescape, List.splitOn_eq_singleton (h _ (by decide))]
  have hread := of_split_eq_singleton hkey (escapedAfter_of_not_mem hescape) hsplit
  rwa [String.ofList_toList] at hread

theorem expression {s : String} (hquote : '\'' ∉ s.toList) (hescape : '\\' ∉ s.toList) :
    ReadAs [⟨key, quotedExpression s⟩] (readExpression key s) := by
  have hoption : FilterOption.unquoted ⟨key, quotedExpression s⟩ = (key ++ "=" ++ s).toList := by
    rw [FilterOption.unquoted_eq, OptionValue.unquoted_quotedExpression hquote]
    exact String.toList_append.symm
  have hnot : '\\' ∉ (key ++ "=" ++ s).toList := by
    rw [String.toList_append, List.mem_append, not_or]
    exact ⟨hkey.escape_not_mem, hescape⟩
  refine ⟨?_, ?_⟩
  · rw [List.forall_mem_singleton, hoption, escapedAfter_of_not_mem hnot]
  · rw [List.flatMap_singleton, FilterOption.readings, readExpression, hoption,
      splitOptions_eq_splitOn hnot]

theorem literalExpression {s : String} (h : Literal s) :
    ReadAs [⟨key, quotedExpression s⟩] [(key, s)] := by
  rw [← readExpression_of_not_mem hkey (h _ (by decide))]
  exact expression hkey (h _ (by decide)) (h _ (by decide))

theorem escaped (s : String) :
    ReadAs [⟨key, .quoted (escapeText s)⟩]
      [(key, String.ofList (s.toList.map drawnChar))] :=
  of_split_eq_singleton hkey (escapedAfter_escapeText s) (splitOptions_escapeText s)

end Option

/-- The options of a filter are read one by one. -/
theorem readOptions_eq {options : List FilterOption} {read : List (String × String)}
    (h : ReadAs options read) (hne : options ≠ []) (hcontained : ∀ o ∈ options, o.Contained)
    {name : String} (hname : '=' ∉ name.toList) :
    readOptions (name ++ "=" ++ ":".intercalate (options.map FilterOption.text)) = read := by
  have hparts : (options.map fun o => o.text.toList).map (List.filter (· ≠ '\'')) =
      options.map FilterOption.unquoted := by
    rw [List.map_map]
    exact List.map_congr_left fun o ho => (hcontained o ho).filter_text
  have hclosed : ∀ cs ∈ options.map FilterOption.unquoted, escapedAfter false cs = false :=
    List.forall_mem_map.2 h.closed
  have harguments :
      behindName (name ++ "=" ++ ":".intercalate (options.map FilterOption.text)).toList =
        [':'].intercalate (options.map fun o => o.text.toList) := by
    rw [String.append_assoc, String.toList_append, String.toList_append]
    refine (behindName_append hname _).trans ?_
    rw [String.toList_intercalate, List.map_map]
    rfl
  rw [readOptions, harguments, filter_intercalate (by decide), hparts,
    splitOptions_intercalate (by simpa using hne) hclosed, List.flatMap_map, List.map_flatMap]
  exact h.readings

end ReadAs

theorem readAs_enable (start stop : Int) :
    ReadAs [enableOption start stop]
      [("enable", "gte(t," ++ seconds start ++ ")*lt(t," ++ seconds stop ++ ")")] := by
  have htime (t : Int) : Literal (seconds t) := .of_isNumberText (isNumberText_seconds t)
  exact .literal (by decide) (((((by decide : Literal "gte(t,").append (htime _)).append
    (by decide)).append (htime _)).append (by decide))

/-- The text of a filter with options whose values stand without quotes. -/
def optionText (name : String) (pairs : List (String × String)) : String :=
  name ++ "=" ++ ":".intercalate (pairs.map fun o => o.1 ++ "=" ++ o.2)

/-- A name and a value that are read as they are written. -/
def ReadsBack (o : String × String) : Prop := (IsKey o.1 ∧ Plain o.1) ∧ Literal o.2 ∧ Plain o.2

theorem readsBack_seconds {key : String} (h : IsKey key ∧ Plain key) (ms : Int) :
    ReadsBack (key, seconds ms) :=
  ⟨h, .of_isNumberText (isNumberText_seconds ms), plain_seconds ms⟩

theorem readAs_pairs {pairs : List (String × String)} (h : ∀ o ∈ pairs, ReadsBack o) :
    ReadAs (pairs.map fun o => ⟨o.1, .bare o.2⟩) pairs := by
  induction pairs with
  | nil => exact .nil
  | cons o pairs ih =>
    obtain ⟨ho, hpairs⟩ := List.forall_mem_cons.1 h
    have hone : ReadAs [⟨o.1, .bare o.2⟩] [o] := .literal ho.1.1 ho.2.1
    exact hone.append (ih hpairs)

theorem readOptions_optionText {name : String} (hname : '=' ∉ name.toList)
    {pairs : List (String × String)} (hne : pairs ≠ []) (h : ∀ o ∈ pairs, ReadsBack o) :
    readOptions (optionText name pairs) = pairs := by
  have hread := (readAs_pairs h).readOptions_eq (by simpa using hne)
    (List.forall_mem_map.2 fun o ho => ⟨(h o ho).1.2, (h o ho).2.2⟩) hname
  rwa [List.map_map] at hread

end RenderGateway.Graph
