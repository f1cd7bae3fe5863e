import Mathlib.Data.List.Basic
import RenderGateway.Command.Basic

/-!
# Command lines as a shell reads them

A shell reads a line character by character. Outside of quoted spans a blank ends a word, a single
quote opens a span and a backslash lets the next character stand for itself; in a span every
character does, up to the next single quote. A written command line is read as the words that it
was written from, and outside of its spans there is nothing that a shell gives a meaning to.
-/

namespace RenderGateway.Shell

/-- Where a shell stands in a line: outside of spans, in a span, or behind a backslash. -/
inductive Mode
  | bare
  | quoted
  | escaped

/-- What a character of a line is read as. -/
inductive Token
  | blank
  /-- A quote around a span, or a backslash in front of a character. -/
  | mark
  | bare (c : Char)
  | quoted (c : Char)
  | escaped (c : Char)
deriving DecidableEq

def isBlank (c : Char) : Bool := c = ' ' || c = '\t'

namespace Mode

def next : Mode → Char → Mode
  | bare, c => if c = '\'' then quoted else if c = '\\' then escaped else bare
  | quoted, c => if c = '\'' then bare else quoted
  | escaped, _ => bare

def token : Mode → Char → Token
  | bare, c => if isBlank c then .blank else if c = '\'' ∨ c = '\\' then .mark else .bare c
  | quoted, c => if c = '\'' then .mark else .quoted c
  | escaped, c => .escaped c

end Mode

/-- The tokens of a line. A line that ends in a span or behind a backslash is not complete. -/
def scan : Mode → List Char → Option (List Token)
  | .bare, [] => some []
  | _, [] => none
  | m, c :: cs => (scan (m.next c) cs).map (m.token c :: ·)

namespace Token

/-- The character that a token adds to its word. -/
def char? : Token → Option Char
  | bare c | quoted c | escaped c => some c
  | blank | mark => none

/-- What a token may be so that a shell takes it as it is. -/
def Harmless : Token → Prop
  | bare c => isPlain c = true
  | escaped c => c = '\''
  | blank | mark | quoted _ => True

end Token

/-- The words between the blanks. A pair of quotes around nothing makes an empty word. -/
def wordsOf (tokens : List Token) : List (List Char) :=
  ((tokens.splitOn .blank).filter (· ≠ [])).map (List.filterMap Token.char?)

/-- The words of a line. -/
def words? (line : String) : Option (List String) :=
  (scan .bare line.toList).map fun tokens => (wordsOf tokens).map String.ofList

section Words

/-- The tokens of a character that stands in a span. -/
def charTokens (c : Char) : List Token :=
  if c = '\'' then [.mark, .mark, .escaped '\'', .mark] else [.quoted c]

/-- The tokens of a word as it is written. -/
def wordTokens (cs : List Char) : List Token :=
  if cs ≠ [] ∧ cs.all isPlain then cs.map .bare else .mark :: cs.flatMap charTokens ++ [.mark]

theorem next_bare_of_isPlain {c : Char} (h : isPlain c = true) :
    Mode.bare.next c = .bare ∧ Mode.bare.token c = .bare c := by
  have hne : ∀ {d}, isPlain d = false → c ≠ d := by
    rintro d hd rfl
    rw [h] at hd
    cases hd
  have hquote : c ≠ '\'' := hne (by decide)
  have hslash : c ≠ '\\' := hne (by decide)
  have hblank : isBlank c = false := by
    have hspace : c ≠ ' ' := hne (by decide)
    have htab : c ≠ '\t' := hne (by decide)
    simp [isBlank, hspace, htab]
  simp [Mode.next, Mode.token, hquote, hslash, hblank]

theorem scan_plain {cs : List Char} (h : cs.all isPlain = true) (rest : List Char) :
    scan .bare (cs ++ rest) = (scan .bare rest).map (cs.map .bare ++ ·) := by
  induction cs with
  | nil => simp
  | cons c cs ih =>
    rw [List.all_cons, Bool.and_eq_true] at h
    obtain ⟨hnext, htoken⟩ := next_bare_of_isPlain h.1
    rw [List.cons_append, scan, hnext, htoken, ih h.2, Option.map_map]
    rfl

/-- In front of a quote the span is closed; the quote stands behind a backslash, and a new span
opens. -/
theorem scan_quotedChar (c : Char) (rest : List Char) :
    scan .quoted (quotedChar c ++ rest) = (scan .quoted rest).map (charTokens c ++ ·) := by
  by_cases hc : c = '\''
  · subst hc
    change Option.map _ (Option.map _ (Option.map _ (Option.map _ (scan .quoted rest)))) = _
    simp only [Option.map_map]
    rfl
  · have hnext : Mode.quoted.next c = .quoted := if_neg hc
    have htoken : Mode.quoted.token c = .quoted c := if_neg hc
    rw [quotedChar, if_neg hc, charTokens, if_neg hc, List.singleton_append, scan, hnext, htoken]
    rfl

theorem scan_quoted (cs rest : List Char) :
    scan .quoted (cs.flatMap quotedChar ++ '\'' :: rest) =
      (scan .bare rest).map (cs.flatMap charTokens ++ .mark :: ·) := by
  induction cs with
  | nil => rfl
  | cons c cs ih =>
    rw [List.flatMap_cons, List.append_assoc, scan_quotedChar, ih, Option.map_map]
    congr 1
    funext tokens
    simp

theorem scan_quoteChars (cs rest : List Char) :
    scan .bare (quoteChars cs ++ rest) = (scan .bare rest).map (wordTokens cs ++ ·) := by
  unfold quoteChars wordTokens
  by_cases h : cs ≠ [] ∧ cs.all isPlain = true
  · rw [if_pos h, if_pos h]
    exact scan_plain h.2 rest
  · rw [if_neg h, if_neg h, List.append_assoc]
    change (scan .quoted (cs.flatMap quotedChar ++ '\'' :: rest)).map _ = _
    rw [scan_quoted, Option.map_map]
    congr 1
    funext tokens
    simp [Mode.token, isBlank]

theorem wordTokens_ne_nil (cs : List Char) : wordTokens cs ≠ [] := by
  unfold wordTokens
  split
  · next h => simpa using h.1
  · simp

theorem blank_not_mem_wordTokens (cs : List Char) : Token.blank ∉ wordTokens cs := by
  have hchar : ∀ c, Token.blank ∉ charTokens c := by
    intro c
    unfold charTokens
    split <;> simp
  unfold wordTokens
  split <;> simp [hchar]

theorem harmless_charTokens {c : Char} {t : Token} (h : t ∈ charTokens c) : t.Harmless := by
  unfold charTokens at h
  split at h
  · simp only [List.mem_cons, List.not_mem_nil, or_false] at h
    rcases h with rfl | rfl | rfl | rfl
    · trivial
    · trivial
    · rfl
    · trivial
  · rw [List.mem_singleton.1 h]
    trivial

theorem harmless_wordTokens {cs : List Char} {t : Token} (h : t ∈ wordTokens cs) :
    t.Harmless := by
  unfold wordTokens at h
  split at h
  · next hplain =>
    obtain ⟨c, hc, rfl⟩ := List.mem_map.1 h
    exact List.all_eq_true.1 hplain.2 c hc
  · rw [List.cons_append, List.mem_cons, List.mem_append, List.mem_singleton] at h
    rcases h with rfl | h | rfl
    · trivial
    · obtain ⟨c, _, hc⟩ := List.mem_flatMap.1 h
      exact harmless_charTokens hc
    · trivial

theorem filterMap_wordTokens (cs : List Char) : (wordTokens cs).filterMap Token.char? = cs := by
  have hchar : ∀ c, (charTokens c).filterMap Token.char? = [c] := by
    intro c
    unfold charTokens
    split
    · next hc => rw [hc]; rfl
    · rfl
  unfold wordTokens
  split
  · rw [List.filterMap_map]
    exact List.filterMap_some
  · rw [List.cons_append, List.filterMap_cons_none rfl, List.filterMap_append,
      List.filterMap_flatMap]
    simp [hchar, Token.char?]

end Words

section Lines

/-- The tokens of a line of words. -/
def lineTokens (words : List (List Char)) : List Token :=
  [.blank].intercalate (words.map wordTokens)

theorem lineTokens_singleton (cs : List Char) : lineTokens [cs] = wordTokens cs :=
  List.intercalate_singleton

theorem lineTokens_cons_cons (cs ds : List Char) (rest : List (List Char)) :
    lineTokens (cs :: ds :: rest) = wordTokens cs ++ .blank :: lineTokens (ds :: rest) := by
  simp only [lineTokens, List.map_cons, List.intercalate_cons_cons, List.append_assoc,
    List.singleton_append]

theorem scan_intercalate (words : List (List Char)) :
    scan .bare ([' '].intercalate (words.map quoteChars)) = some (lineTokens words) := by
  induction words with
  | nil => rfl
  | cons cs rest ih =>
    cases rest with
    | nil =>
      have h := scan_quoteChars cs []
      rw [List.append_nil] at h
      simp [lineTokens_singleton, h, scan]
    | cons ds rest =>
      rw [List.map_cons] at ih
      rw [List.map_cons, List.map_cons, List.intercalate_cons_cons, List.append_assoc,
        List.singleton_append, scan_quoteChars, lineTokens_cons_cons]
      change ((scan .bare _).map (Token.blank :: ·)).map _ = _
      rw [ih]
      rfl

theorem wordsOf_lineTokens (words : List (List Char)) : wordsOf (lineTokens words) = words := by
  unfold wordsOf lineTokens
  by_cases hne : words = []
  · subst hne
    rfl
  · have hblank : ∀ tokens ∈ words.map wordTokens, Token.blank ∉ tokens := by
      intro tokens h
      obtain ⟨cs, _, rfl⟩ := List.mem_map.1 h
      exact blank_not_mem_wordTokens cs
    have hkept : (words.map wordTokens).filter (· ≠ []) = words.map wordTokens := by
      refine List.filter_eq_self.2 fun tokens h => ?_
      obtain ⟨cs, _, rfl⟩ := List.mem_map.1 h
      exact decide_eq_true (wordTokens_ne_nil cs)
    rw [List.splitOn_intercalate _ hblank (by simpa using hne), hkept, List.map_map]
    calc words.map (List.filterMap Token.char? ∘ wordTokens)
      _ = words.map id := List.map_congr_left fun cs _ => filterMap_wordTokens cs
      _ = words := List.map_id words

theorem harmless_lineTokens {words : List (List Char)} {t : Token} (h : t ∈ lineTokens words) :
    t.Harmless := by
  induction words with
  | nil => cases h
  | cons cs rest ih =>
    cases rest with
    | nil => exact harmless_wordTokens (lineTokens_singleton cs ▸ h)
    | cons ds rest =>
      rw [lineTokens_cons_cons, List.mem_append, List.mem_cons] at h
      rcases h with h | rfl | h
      · exact harmless_wordTokens h
      · trivial
      · exact ih h

/-- Every blank stands between two words. -/
theorem count_blank_lineTokens (words : List (List Char)) :
    (lineTokens words).count .blank = words.length - 1 := by
  induction words with
  | nil => rfl
  | cons cs rest ih =>
    have hcs := List.count_eq_zero.2 (blank_not_mem_wordTokens cs)
    cases rest with
    | nil => rw [lineTokens_singleton, hcs, List.length_singleton]
    | cons ds rest =>
      rw [lineTokens_cons_cons, List.count_append, hcs, List.count_cons_self, ih]
      simp only [List.length_cons]
      omega

theorem toList_commandLine (words : List String) :
    (commandLine words).toList =
      [' '].intercalate ((words.map String.toList).map quoteChars) := by
  rw [commandLine, String.toList_intercalate, List.map_map, List.map_map]
  congr 1
  exact List.map_congr_left fun word _ => String.toList_ofList

end Lines

end RenderGateway.Shell

namespace RenderGateway.CompiledCommand

open RenderGateway.Shell

/-- A command line is read as the program and its arguments. Outside of spans it has plain
characters, single quotes behind backslashes, and one blank in front of each argument. -/
theorem words_commandLine (c : CompiledCommand) :
    words? c.commandLine = some (c.program :: c.args) ∧
      ∃ tokens, scan .bare c.commandLine.toList = some tokens ∧
        (∀ t ∈ tokens, t.Harmless) ∧ tokens.count .blank = c.args.length := by
  have hscan : scan .bare c.commandLine.toList =
      some (lineTokens ((c.program :: c.args).map String.toList)) := by
    rw [commandLine, toList_commandLine, scan_intercalate]
  refine ⟨?_, _, hscan, fun t => harmless_lineTokens, ?_⟩
  · rw [words?, hscan, Option.map_some, wordsOf_lineTokens, List.map_map]
    simp [Function.comp_def]
  · rw [count_blank_lineTokens]
    simp

example : Shell.commandLine ["echo", "it's", ""] = "echo 'it'\\''s' ''" ∧
    words? "echo 'it'\\''s' ''" = some ["echo", "it's", ""] := by decide +kernel

end RenderGateway.CompiledCommand
