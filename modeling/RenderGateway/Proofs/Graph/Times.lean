import RenderGateway.Proofs.Graph.Compositing
import RenderGateway.Proofs.Graph.Rendering

/-!
# Times in the text of a graph

The times that an encoder reads in a filter are those that the filter was made with. A plan that
passes the check is compiled to times that are not negative, to cuts that take something and to
texts that are shown for a while. A layer is another matter: its place on the timeline may be two
milliseconds shorter than its window plays, and a window may play for less than half a millisecond,
so that a layer may end before it begins. `proper_of_check` says that this is all that can go wrong.
-/

namespace RenderGateway

namespace Graph

/-! ### Times as they are read -/

/-- The options of a filter that are times, by the name of the filter. -/
def timeKeys (name : String) : List String :=
  if name = "trim" ∨ name = "atrim" then ["start", "end"]
  else if name = "fade" ∨ name = "afade" then ["st", "d"]
  else []

/-- The time that a comparison is made with. -/
def bound? : List Char → Option ℚ
  | 'g' :: 't' :: 'e' :: '(' :: 't' :: ',' :: cs => closedNumber? cs
  | 'l' :: 't' :: '(' :: 't' :: ',' :: cs => closedNumber? cs
  | _ => none

/-- The times that a clock is moved by. -/
def shiftsOf (filter : String) : List (Option ℚ) :=
  ((behindName filter.toList).splitOn '+').tail.map fun cs => number? (cs.takeWhile (· ≠ '/'))

/-- The times in seconds that a filter has: in its options, in its window and in its clock. -/
def timesOf (filter : String) : List (Option ℚ) :=
  let name := nameOf filter
  ((timeKeys name).filterMap fun key => (lastOption? key filter).map fun s => number? s.toList) ++
  (if name = "overlay" ∨ name = "drawtext" then
    (lastOption? "enable" filter).elim [] fun s => (s.toList.splitOn '*').map bound?
   else []) ++
  if name = "setpts" then shiftsOf filter else []

/-- The times in seconds between which a filter cuts, from the beginning if it names only the
second one. -/
def taken? (filter : String) : Option (ℚ × ℚ) :=
  (((lastOption? "start" filter).map fun s => number? s.toList).getD (some 0)).bind fun start =>
    ((lastOption? "end" filter).bind fun s => number? s.toList).map fun stop => (start, stop)

/-- The time in seconds that is read for a time in milliseconds. -/
def timeOf? (ms : Int) : Option ℚ := number? (seconds ms).toList

/-- A filter with no negative time, that takes something if it cuts and acts at some time if it has
a window. -/
structure Proper (filter : String) : Prop where
  times : ∀ x ∈ timesOf filter, ∃ t, x = some t ∧ 0 ≤ t
  cuts : nameOf filter ∈ ["trim", "atrim"] →
    ∃ start stop, taken? filter = some (start, stop) ∧ start < stop
  acts : nameOf filter ∈ ["overlay", "drawtext"] → ∃ t, actsAt? t filter = some true

namespace Filter

/-- The times that a filter is made with. -/
def times : Filter → List Int
  | trim start stop | audioTrim start stop | overlay start stop => [start, stop]
  | retime _ shift => shift.toList
  | fadeIn start duration | audioFadeOut start duration => [start, duration]
  | drawText o => [o.timelineStart.toInt, o.timelineEnd.toInt]
  | audioFadeIn duration => [0, duration]
  | audioEnd stop => [stop]
  | _ => []

/-- The times between which a filter cuts or acts. -/
def window? : Filter → Option (Int × Int)
  | trim start stop | audioTrim start stop | overlay start stop => some (start, stop)
  | drawText o => some (o.timelineStart.toInt, o.timelineEnd.toInt)
  | audioEnd stop => some (0, stop)
  | _ => none

/-- A filter that cannot leave its place in a graph. -/
def Confined : Filter → Prop
  | drawText o => o.SyntaxValid
  | _ => True

end Filter

/-- The times among the options of a filter that has neither a window nor a clock. -/
theorem timesOf_optionText {f : Filter} {pairs : List (String × String)}
    (htext : f.text = optionText f.name pairs) (hname : f.name ∈ ["trim", "atrim", "fade", "afade"])
    (hne : pairs ≠ []) (h : ∀ o ∈ pairs, ReadsBack o) :
    timesOf f.text = (timeKeys f.name).filterMap fun key =>
      (pairs.reverse.lookup key).map fun s => number? s.toList := by
  have hequals : '=' ∉ f.name.toList := by
    revert hname
    generalize f.name = name
    revert name
    decide
  have hother : ¬ (f.name = "overlay" ∨ f.name = "drawtext") ∧ f.name ≠ "setpts" := by
    revert hname
    generalize f.name = name
    revert name
    decide
  rw [timesOf, Filter.nameOf_text, if_neg hother.1, if_neg hother.2, List.append_nil,
    List.append_nil, htext]
  simp only [lastOption?_optionText hequals hne h]

theorem text_audioEnd (stop : Int) :
    (Filter.audioEnd stop).text = optionText "atrim" [("end", seconds stop)] := by
  change "atrim=end=" ++ seconds stop = _
  apply String.toList_inj.1
  simp [optionText]

theorem text_fadeIn (start duration : Int) : (Filter.fadeIn start duration).text =
    optionText "fade" [("t", "in"), ("st", seconds start), ("d", seconds duration)] := by
  change "fade=t=in:st=" ++ seconds start ++ ":d=" ++ seconds duration = _
  apply String.toList_inj.1
  simp [optionText]

theorem text_audioFadeIn (duration : Int) : (Filter.audioFadeIn duration).text =
    optionText "afade" [("t", "in"), ("st", "0"), ("d", seconds duration)] := by
  change "afade=t=in:st=0:d=" ++ seconds duration = _
  apply String.toList_inj.1
  simp [optionText]

theorem text_audioFadeOut (start duration : Int) : (Filter.audioFadeOut start duration).text =
    optionText "afade" [("t", "out"), ("st", seconds start), ("d", seconds duration)] := by
  change "afade=t=out:st=" ++ seconds start ++ ":d=" ++ seconds duration = _
  apply String.toList_inj.1
  simp [optionText]

theorem closedBound_window (start stop : Int) :
    ((windowText start stop).toList.splitOn '*').map bound? = [start, stop].map timeOf? := by
  rw [splitOn_window, List.map_cons, List.map_singleton]
  change [closedNumber? ((seconds start).toList ++ [')']),
    closedNumber? ((seconds stop).toList ++ [')'])] = _
  rw [closedNumber?_seconds, closedNumber?_seconds]
  rfl

/-- The times of a filter with a window are those of the window. -/
theorem timesOf_of_enabled {f : Filter} {start stop : Int}
    (hname : f.name = "overlay" ∨ f.name = "drawtext") (h : Enabled start stop f.text) :
    timesOf f.text = [start, stop].map timeOf? := by
  have hother : timeKeys f.name = [] ∧ f.name ≠ "setpts" := by
    rcases hname with hname | hname <;> rw [hname] <;> decide
  rw [timesOf, Filter.nameOf_text, if_pos hname, if_neg hother.2, hother.1, h, Option.elim_some,
    closedBound_window]
  rfl

/-- The shift of a clock stands behind its only plus sign. -/
theorem shiftsOf_retime (speed : Option Binary64) (shift : Option Int) :
    shiftsOf (Filter.retime speed shift).text = shift.toList.map timeOf? := by
  have hclock : behindName (Filter.retime speed shift).text.toList =
      (Filter.clockText speed shift).toList := by
    change behindName ("setpts=" ++ Filter.clockText speed shift).toList = _
    rw [String.toList_append]
    exact behindName_append (show '=' ∉ "setpts".toList by decide) _
  obtain ⟨front, hfront, htext⟩ : ∃ front : String, '+' ∉ front.toList ∧
      Filter.clockText speed shift =
        front ++ shift.elim "" fun ms => "+" ++ seconds ms ++ "/TB" := by
    cases speed with
    | none => exact ⟨"PTS-STARTPTS", by decide, by cases shift <;> rfl⟩
    | some x =>
      refine ⟨"(PTS-STARTPTS)/" ++ factor x, ?_, by cases shift <;> rfl⟩
      rw [String.toList_append, List.mem_append, not_or]
      exact ⟨by decide, (isNumberText_factor x).not_mem (by decide)⟩
  rw [shiftsOf, hclock, htext, String.toList_append]
  cases shift with
  | none =>
    change ((front.toList ++ []).splitOn '+').tail.map _ = _
    rw [List.append_nil, List.splitOn_eq_singleton hfront]
    rfl
  | some ms =>
    have hseconds : '+' ∉ (seconds ms).toList ++ "/TB".toList := by
      rw [List.mem_append, not_or]
      exact ⟨(isNumberText_seconds ms).not_mem (by decide), by decide⟩
    have hnumber : ((seconds ms).toList ++ "/TB".toList).takeWhile (· ≠ '/') =
        (seconds ms).toList := by
      rw [List.takeWhile_append_of_pos fun c hc => decide_eq_true <|
        ne_of_mem_of_not_mem hc ((isNumberText_seconds ms).not_mem (by decide))]
      simp
    have hsplit : front.toList ++ ("+" ++ seconds ms ++ "/TB").toList =
        front.toList ++ '+' :: ((seconds ms).toList ++ "/TB".toList) := by simp
    change ((front.toList ++ ("+" ++ seconds ms ++ "/TB").toList).splitOn '+').tail.map _ = _
    rw [hsplit, List.splitOn_append_cons_self, List.splitOn_eq_singleton hfront,
      List.splitOn_eq_singleton hseconds, List.singleton_append, List.tail_cons,
      List.map_singleton, hnumber]
    rfl

theorem readsBack_end (stop : Int) : ∀ o ∈ [("end", seconds stop)], ReadsBack o :=
  List.forall_mem_singleton.2 (readsBack_seconds (by decide) _)

/-- The options of a fade. -/
theorem readsBack_fade {kind start : String} (hkind : Literal kind ∧ Plain kind)
    (hstart : Literal start ∧ Plain start) (duration : Int) :
    ∀ o ∈ [("t", kind), ("st", start), ("d", seconds duration)], ReadsBack o := by
  have hkeys : (IsKey "t" ∧ Plain "t") ∧ IsKey "st" ∧ Plain "st" := by decide
  simp only [List.forall_mem_cons]
  exact ⟨⟨hkeys.1, hkind⟩, ⟨hkeys.2, hstart⟩, readsBack_seconds (by decide) _, nofun⟩

theorem literal_seconds (ms : Int) : Literal (seconds ms) ∧ Plain (seconds ms) :=
  ⟨.of_isNumberText (isNumberText_seconds ms), plain_seconds ms⟩

theorem number?_zero : number? "0".toList = some 0 := by decide +kernel

theorem timeOf?_zero : timeOf? 0 = some 0 := by decide +kernel

theorem timesOf_ends {f : Filter} {start stop : Int}
    (htext : f.text = optionText f.name [("start", seconds start), ("end", seconds stop)])
    (hname : f.name = "trim" ∨ f.name = "atrim") :
    timesOf f.text = [start, stop].map timeOf? := by
  have hkeys : timeKeys f.name = ["start", "end"] := if_pos hname
  rw [timesOf_optionText htext (by rcases hname with h | h <;> rw [h] <;> decide)
    (List.cons_ne_nil _ _) (readsBack_ends start stop), hkeys]
  rfl

theorem timesOf_fade {f : Filter} {way start : String} {duration : Int}
    (htext : f.text = optionText f.name [("t", way), ("st", start), ("d", seconds duration)])
    (hname : f.name = "fade" ∨ f.name = "afade") (hway : Literal way ∧ Plain way)
    (hstart : Literal start ∧ Plain start) :
    timesOf f.text = [number? start.toList, timeOf? duration] := by
  have hkeys : timeKeys f.name = ["st", "d"] := by
    rcases hname with h | h <;> rw [h] <;> decide
  rw [timesOf_optionText htext (by rcases hname with h | h <;> rw [h] <;> decide)
    (List.cons_ne_nil _ _) (readsBack_fade hway hstart duration), hkeys]
  rfl

/-- The times that are read in the text of a filter are those that it was made with. -/
theorem timesOf_text {f : Filter} (h : f.Confined) :
    timesOf f.text = f.times.map timeOf? := by
  cases f with
  | trim start stop => exact timesOf_ends (text_trim start stop) (.inl rfl)
  | audioTrim start stop => exact timesOf_ends (text_audioTrim start stop) (.inr rfl)
  | audioEnd stop =>
    rw [timesOf_optionText (text_audioEnd stop) (.tail _ (.head _)) (List.cons_ne_nil _ _)
      (readsBack_end stop)]
    rfl
  | fadeIn start duration =>
    exact timesOf_fade (text_fadeIn start duration) (.inl rfl) (by decide) (literal_seconds start)
  | audioFadeIn duration =>
    rw [timesOf_fade (text_audioFadeIn duration) (.inr rfl) (by decide) (by decide), number?_zero,
      ← timeOf?_zero]
    rfl
  | audioFadeOut start duration =>
    exact timesOf_fade (text_audioFadeOut start duration) (.inr rfl) (by decide)
      (literal_seconds start)
  | overlay start stop => exact timesOf_of_enabled (.inl rfl) (enabled_overlay start stop)
  | drawText o => exact timesOf_of_enabled (.inr rfl) (enabled_drawText h)
  | retime speed shift =>
    rw [timesOf, Filter.nameOf_text]
    exact shiftsOf_retime speed shift
  | effect filter =>
    rw [timesOf, Filter.nameOf_text]
    cases filter <;> rfl
  | fit | pad | squarePixels | frameRate | concat | audioRestart | audioFormat | tempo | volume
  | delay | silence | mix | audioPad =>
    rw [timesOf, Filter.nameOf_text]
    rfl

/-! ### Filters that are proper -/

/-- A filter with no negative time and with a window that has some length. -/
def Filter.IsProper (f : Filter) : Prop :=
  (∀ t ∈ f.times, 0 ≤ t) ∧ ∀ window ∈ f.window?, window.1 < window.2

theorem thousandth_nonneg_iff {ms : Int} : 0 ≤ (ms : ℚ) / 1000 ↔ 0 ≤ ms := by
  rw [le_div_iff₀ (by norm_num), zero_mul, Int.cast_nonneg_iff]

/-- A time that is read is not negative exactly if the one that was written is not: the least word
is read as no time. -/
theorem exists_timeOf?_iff {ms : Int} : (∃ t, timeOf? ms = some t ∧ 0 ≤ t) ↔ 0 ≤ ms := by
  by_cases h : Writable ms
  · simp only [timeOf?, number?_seconds h, Option.some.injEq, exists_eq_left',
      thousandth_nonneg_iff]
  · obtain rfl : ms = Int64.minValue.toInt := not_not.1 h
    rw [timeOf?, number?_seconds_least]
    decide

/-- A filter acts at some time exactly if its window has some length. -/
theorem exists_actsAt?_iff {start stop : Int} {filter : String} (h : ActsWithin start stop filter) :
    (∃ t, actsAt? t filter = some true) ↔ start < stop := by
  simp only [h _, Option.some.injEq, decide_eq_true_eq]
  rw [← thousandth_lt_iff]
  exact ⟨fun ⟨_, hfrom, huntil⟩ => lt_of_le_of_lt hfrom huntil, fun hlt => ⟨_, le_rfl, hlt⟩⟩

theorem exists_taken?_iff {start stop : Int} {filter : String}
    (h : taken? filter = some ((start : ℚ) / 1000, (stop : ℚ) / 1000)) :
    (∃ a b, taken? filter = some (a, b) ∧ a < b) ↔ start < stop := by
  simp only [h, Option.some.injEq, Prod.mk.injEq]
  rw [← thousandth_lt_iff]
  constructor
  · rintro ⟨_, _, ⟨rfl, rfl⟩, hlt⟩
    exact hlt
  · intro hlt
    exact ⟨_, _, ⟨rfl, rfl⟩, hlt⟩

theorem taken?_ends {name : String} (hname : '=' ∉ name.toList) {start stop : Int}
    (hstart : Writable start) (hstop : Writable stop) :
    taken? (optionText name [("start", seconds start), ("end", seconds stop)]) =
      some ((start : ℚ) / 1000, (stop : ℚ) / 1000) := by
  unfold taken?
  rw [lastOption?_optionText hname (List.cons_ne_nil _ _) (readsBack_ends start stop),
    lastOption?_optionText hname (List.cons_ne_nil _ _) (readsBack_ends start stop)]
  change (number? (seconds start).toList).bind (fun a =>
    (number? (seconds stop).toList).map fun b => (a, b)) = _
  rw [number?_seconds hstart, number?_seconds hstop]
  rfl

theorem taken?_end {name : String} (hname : '=' ∉ name.toList) {stop : Int}
    (hstop : Writable stop) :
    taken? (optionText name [("end", seconds stop)]) =
      some (((0 : Int) : ℚ) / 1000, (stop : ℚ) / 1000) := by
  unfold taken?
  rw [lastOption?_optionText hname (List.cons_ne_nil _ _) (readsBack_end stop),
    lastOption?_optionText hname (List.cons_ne_nil _ _) (readsBack_end stop)]
  change (number? (seconds stop).toList).map (fun b => ((0 : ℚ), b)) = _
  rw [number?_seconds hstop]
  simp

theorem writable_pair {start stop : Int} (h : ∀ t ∈ [start, stop], Writable t) :
    Writable start ∧ Writable stop := by
  simpa using h

/-- The windows that are read have some length exactly if those that were written have. -/
theorem window_text_iff {f : Filter} (h : f.Confined) (hwritable : ∀ t ∈ f.times, Writable t) :
    ((nameOf f.text ∈ ["trim", "atrim"] →
        ∃ start stop, taken? f.text = some (start, stop) ∧ start < stop) ∧
      (nameOf f.text ∈ ["overlay", "drawtext"] → ∃ t, actsAt? t f.text = some true)) ↔
      ∀ window ∈ f.window?, window.1 < window.2 := by
  rw [Filter.nameOf_text]
  cases f with
  | trim start stop =>
    obtain ⟨hstart, hstop⟩ := writable_pair hwritable
    have htaken := exists_taken?_iff (text_trim start stop ▸ taken?_ends (by decide) hstart hstop)
    simpa [Filter.name, Filter.window?] using htaken
  | audioTrim start stop =>
    obtain ⟨hstart, hstop⟩ := writable_pair hwritable
    have htaken :=
      exists_taken?_iff (text_audioTrim start stop ▸ taken?_ends (by decide) hstart hstop)
    simpa [Filter.name, Filter.window?] using htaken
  | audioEnd stop =>
    have hstop : Writable stop := List.forall_mem_singleton.1 hwritable
    have htaken := exists_taken?_iff (text_audioEnd stop ▸ taken?_end (by decide) hstop)
    simpa [Filter.name, Filter.window?] using htaken
  | overlay start stop =>
    obtain ⟨hstart, hstop⟩ := writable_pair hwritable
    have hacts := exists_actsAt?_iff ((enabled_overlay start stop).actsWithin hstart hstop)
    simpa [Filter.name, Filter.window?] using hacts
  | drawText o =>
    obtain ⟨hstart, hstop⟩ := writable_pair hwritable
    have hacts := exists_actsAt?_iff ((enabled_drawText h).actsWithin hstart hstop)
    simpa [Filter.name, Filter.window?] using hacts
  | effect filter => cases filter <;> simp [Filter.name, Filter.window?, VideoFilter.filterName]
  | retime | fadeIn | audioFadeIn | audioFadeOut | fit | pad | squarePixels | frameRate | concat
  | audioRestart | audioFormat | tempo | volume | delay | silence | mix | audioPad =>
    simp [Filter.name, Filter.window?]

/-- The text of a filter is proper exactly if the filter is. -/
theorem proper_text_iff {f : Filter} (h : f.Confined) : Proper f.text ↔ f.IsProper := by
  have htimes : (∀ x ∈ timesOf f.text, ∃ t, x = some t ∧ 0 ≤ t) ↔ ∀ t ∈ f.times, 0 ≤ t := by
    rw [timesOf_text h, List.forall_mem_map]
    simp only [exists_timeOf?_iff]
  by_cases hnonneg : ∀ t ∈ f.times, 0 ≤ t
  · have hwindow := window_text_iff h fun t ht => Writable.of_nonneg (hnonneg t ht)
    constructor
    · exact fun hproper => ⟨hnonneg, hwindow.1 ⟨hproper.cuts, hproper.acts⟩⟩
    · intro hproper
      obtain ⟨hcuts, hacts⟩ := hwindow.2 hproper.2
      exact ⟨htimes.2 hnonneg, hcuts, hacts⟩
  · exact iff_of_false (fun hproper => hnonneg (htimes.1 hproper.times))
      fun hproper => hnonneg hproper.1

/-- A filter without a window is proper if none of its times is negative. -/
theorem isProper_of_window?_eq_none {f : Filter} (hwindow : f.window? = none)
    (htimes : ∀ t ∈ f.times, 0 ≤ t) : f.IsProper := by
  rw [Filter.IsProper, hwindow]
  exact ⟨htimes, nofun⟩

/-- A window that has some length and begins no earlier than the output is proper. -/
theorem isProper_of_lt {f : Filter} {start stop : Int} (htimes : f.times ⊆ [start, stop])
    (hwindow : f.window? = some (start, stop)) (hstart : 0 ≤ start) (hlt : start < stop) :
    f.IsProper := by
  rw [Filter.IsProper, hwindow]
  refine ⟨fun t ht => ?_, by rintro _ ⟨⟩; exact hlt⟩
  have hends : ∀ t ∈ [start, stop], 0 ≤ t := by
    simp only [List.forall_mem_cons]
    exact ⟨hstart, by omega, nofun⟩
  exact hends t (htimes ht)

section Parts

variable {p : Plan} {g : Graph} {f : Filter}

theorem isProper_segment {r : Arithmetic} {a : Segment} (h : a.Valid r p)
    (format : OutputFormat) (hf : f ∈ a.chain format) : f.IsProper := by
  have hplace := h.timelineStart_nonneg
  -- the shift of the clock is the only time that not every segment has
  have hshift : ∀ t ∈ (if a.isBase then none else some a.timelineStart.toInt), 0 ≤ t := by
    cases a.isBase
    · rintro _ ⟨⟩
      exact hplace
    · nofun
  unfold Segment.chain fitFrame at hf
  generalize (if a.isBase then none else some a.timelineStart.toInt) = shift at hf hshift
  simp only [List.mem_append, List.mem_cons, List.not_mem_nil, or_false, List.mem_map] at hf
  rcases hf with ((((rfl | rfl) | rfl | rfl | rfl) | rfl) | ⟨v, _, rfl⟩) | hf
  · exact isProper_of_lt (List.Subset.refl _) rfl h.trimStart_nonneg h.trim_lt
  · exact isProper_of_window?_eq_none rfl fun t ht => hshift t (Option.mem_toList.1 ht)
  · exact isProper_of_window?_eq_none rfl nofun
  · exact isProper_of_window?_eq_none rfl nofun
  · exact isProper_of_window?_eq_none rfl nofun
  · exact isProper_of_window?_eq_none rfl nofun
  · exact isProper_of_window?_eq_none rfl nofun
  · cases htransition : a.transition with
    | none => simp [htransition] at hf
    | some t =>
      obtain rfl : f = .fadeIn (shift.getD 0) t.duration.toInt := by simpa [htransition] using hf
      have hstart : 0 ≤ shift.getD 0 := by
        cases shift with
        | none => exact le_rfl
        | some ms => exact hshift ms rfl
      refine isProper_of_window?_eq_none rfl ?_
      simp only [Filter.times, List.forall_mem_cons]
      exact ⟨hstart, (h.transition t htransition).1.le, nofun⟩

theorem isProper_track {r : Arithmetic} {t : AudioTrack} (h : t.Valid r p) (hf : f ∈ t.chain) :
    f.IsProper := by
  unfold AudioTrack.chain AudioTrack.fadeChain at hf
  simp only [List.mem_append, List.mem_cons, List.not_mem_nil, or_false, List.mem_map,
    List.mem_ite_nil_right] at hf
  rcases hf with
    ((((rfl | rfl | rfl) | ⟨stage, _, rfl⟩) | rfl) | ⟨hin, rfl⟩ | ⟨hout, rfl⟩) | ⟨_, rfl⟩
  · exact isProper_of_lt (List.Subset.refl _) rfl h.trimStart_nonneg h.trim_lt
  · exact isProper_of_window?_eq_none rfl nofun
  · exact isProper_of_window?_eq_none rfl nofun
  · exact isProper_of_window?_eq_none rfl nofun
  · exact isProper_of_window?_eq_none rfl nofun
  · exact isProper_of_window?_eq_none rfl (by simp [Filter.times, hin.le])
  · exact isProper_of_window?_eq_none rfl (by simp [Filter.times, hout.le])
  · exact isProper_of_window?_eq_none rfl nofun

theorem isProper_sound (h : 0 < p.outputDuration)
    (hf : f ∈ (soundNode p.audioTracks.length p.outputDuration).chain) : f.IsProper := by
  have hend : (Filter.audioEnd p.outputDuration).IsProper :=
    isProper_of_lt (List.subset_cons_self _ _) rfl le_rfl h
  unfold soundNode at hf
  split at hf
  · simp only [List.mem_cons, List.not_mem_nil, or_false] at hf
    rcases hf with rfl | rfl
    · exact isProper_of_window?_eq_none rfl nofun
    · exact hend
  · simp only [List.mem_cons, List.not_mem_nil, or_false] at hf
    rcases hf with rfl | rfl | rfl | rfl
    · exact isProper_of_window?_eq_none rfl nofun
    · exact isProper_of_window?_eq_none rfl nofun
    · exact hend
    · exact isProper_of_window?_eq_none rfl nofun

/-- A layer is proper exactly if it ends after it begins. -/
theorem isProper_overlay_iff {start stop : Int} (hstart : 0 ≤ start) :
    (Filter.overlay start stop).IsProper ↔ start < stop :=
  ⟨fun h => h.2 _ rfl, isProper_of_lt (List.Subset.refl _) rfl hstart⟩

theorem Sections.confined (s : Sections p g) {n : Node} (hn : n ∈ s.nodes) (hf : f ∈ n.chain) :
    f.Confined := by
  have hnot {chain : List Filter} {names : List String} (hf : f ∈ chain)
      (hsub : chain.map Filter.name ⊆ names) (hnames : "drawtext" ∉ names) : f.Confined := by
    cases f with
    | drawText o => exact absurd (hsub (List.mem_map_of_mem hf)) hnames
    | _ => trivial
  cases s.arises hn with
  | segment => exact hnot hf (names_segment_subset _ _) (by decide)
  | join => exact hnot hf (List.Subset.refl ["concat"]) (by decide)
  | composite => exact hnot hf (List.Subset.refl ["overlay"]) (by decide)
  | caption first item =>
    rw [captionNode_chain, List.mem_singleton] at hf
    exact hf ▸ s.syntaxValid (mem_orderedTexts.1 (List.mem_of_getElem? item))
  | track => exact hnot hf (names_track_subset _) (by decide)
  | sound =>
    have hnames := s.sound_names
    refine hnot hf (List.Subset.refl _) ?_
    rw [Sections.sound] at hnames
    rw [hnames]
    split <;> decide

/-- Every filter of the graph of a valid plan is proper but for the layers. -/
theorem Arises.isProper_or {r : Arithmetic} (hvalid : p.Valid r) (hlength : 0 < p.outputDuration)
    {n : Node} (h : Arises p g n) (hf : f ∈ n.chain) :
    f.IsProper ∨
      ∃ a ∈ p.layerSegments, f = .overlay a.timelineStart.toInt a.timelineEnd.toInt := by
  cases h with
  | segment item =>
    exact .inl (isProper_segment (hvalid.segments _ (List.mem_of_getElem? item)) _ hf)
  | join =>
    obtain rfl := List.mem_singleton.1 hf
    exact .inl (isProper_of_window?_eq_none rfl nofun)
  | composite first item =>
    obtain rfl := List.mem_singleton.1 hf
    right
    exact exists_upperSegment_iff.1 ⟨_, List.mem_of_getElem? item, rfl⟩
  | caption first item =>
    have ho := hvalid.texts _ (mem_orderedTexts.1 (List.mem_of_getElem? item))
    obtain rfl := List.mem_singleton.1 hf
    exact .inl (isProper_of_lt (List.Subset.refl _) rfl ho.timelineStart_nonneg ho.timeline_lt)
  | track item => exact .inl (isProper_track (hvalid.tracks _ (List.mem_of_getElem? item)) hf)
  | sound => exact .inl (isProper_sound hlength hf)

end Parts

end Graph

/-- What two tolerances of a millisecond leave of a valid segment: it may have no length and end
before it begins if its window plays for a millisecond or two. -/
theorem Segment.Valid.slack {p : Plan} {a : Segment} (h : a.Valid .exact p) :
    -1 ≤ a.outputDuration.toInt ∧ a.timelineStart.toInt - 2 ≤ a.timelineEnd.toInt ∧
    (2 ≤ (playedDuration a.trimStart a.trimEnd a.speed).toInt → 0 < a.outputDuration.toInt) ∧
    (3 ≤ (playedDuration a.trimStart a.trimEnd a.speed).toInt →
      a.timelineStart.toInt < a.timelineEnd.toInt) := by
  have hplayed := playedDuration_nonneg h.trimStart_nonneg (Int.le_of_lt h.trim_lt) h.speed_pos
  have hduration := near_exact_iff.1 h.duration
  have hwindow := near_exact_iff.1 h.window
  omega

namespace Plan

open RenderGateway.Graph

/-- An encoder reads no negative time in the graph of a plan that passes the check, every cut takes
something and every text is shown for a while, but a layer is laid on at some time only if it ends
after it begins. If the distances that the check takes are words, a window that plays for three
milliseconds is enough for that. -/
theorem proper_of_check {p : Plan} {summary : PlanSummary} (hcheck : p.check = .ok summary)
    {engine : Engine} {output : String} {c : CompiledCommand}
    (h : p.compile engine output = .ok c) :
    Arguments.valuesOf "-filter_complex" c.args = [c.graph] ∧
    (∀ n ∈ readGraph c.graph, ∀ f ∈ n.filters, ¬ Proper f → nameOf f = "overlay" ∧
      ∃ a ∈ p.layerSegments, Enabled a.timelineStart.toInt a.timelineEnd.toInt f) ∧
    (∀ a ∈ p.layerSegments, ∃ n ∈ readGraph c.graph, ∃ f ∈ n.filters, nameOf f = "overlay" ∧
      Enabled a.timelineStart.toInt a.timelineEnd.toInt f ∧
      (Proper f ↔ a.timelineStart.toInt < a.timelineEnd.toInt)) ∧
    (Arguments.valuesOf "-t" c.args).map (fun s => number? s.toList) =
      [some ((p.outputDuration : ℚ) / 1000)] ∧
    0 < p.outputDuration ∧
    ∀ a ∈ p.timeline, a.FitsWords →
      -1 ≤ a.outputDuration.toInt ∧ a.timelineStart.toInt - 2 ≤ a.timelineEnd.toInt ∧
      (2 ≤ (playedDuration a.trimStart a.trimEnd a.speed).toInt → 0 < a.outputDuration.toInt) ∧
      (3 ≤ (playedDuration a.trimStart a.trimEnd a.speed).toInt →
        a.timelineStart.toInt < a.timelineEnd.toInt) := by
  have hvalid : p.Valid .words := (check_eq_ok_iff.1 hcheck).1
  obtain ⟨g, s, _, _, hduration, hgraph, hargs, hread⟩ := read_of_compile h
  have hlength : 0 < p.outputDuration := s.duration_pos
  rw [hread]
  refine ⟨?_, ?_, ?_, ?_, hlength, fun a ha hfits =>
    ((Segment.valid_words_iff hfits).1 (hvalid.segments a ha)).slack⟩
  · rw [hargs, hgraph]
    exact Arguments.valuesOf_graph g _ _ _
  · intro _ hpart _ hfilter himproper
    obtain ⟨n, hn, rfl⟩ := List.mem_map.1 hpart
    obtain ⟨f, hf, rfl⟩ := List.mem_map.1 hfilter
    rw [proper_text_iff (s.confined hn hf)] at himproper
    obtain ⟨a, ha, rfl⟩ :=
      ((s.arises hn).isProper_or hvalid hlength hf).resolve_left himproper
    exact ⟨Filter.nameOf_text _, a, ha, enabled_overlay _ _⟩
  · intro a ha
    let Places (start stop : Int) : Prop :=
      start = a.timelineStart.toInt ∧ stop = a.timelineEnd.toInt
    obtain ⟨n, hn, _, _, hf, rfl, rfl⟩ := (s.exists_overlay_iff (R := Places)).2 ⟨a, ha, rfl, rfl⟩
    have hstart := (hvalid.segments a (List.mem_of_mem_filter ha)).timelineStart_nonneg
    exact ⟨n.read, List.mem_map_of_mem hn, _, List.mem_map_of_mem hf, Filter.nameOf_text _,
      enabled_overlay _ _, (proper_text_iff (s.confined hn hf)).trans (isProper_overlay_iff hstart)⟩
  · rw [hargs, encoding, Arguments.valuesOf_duration, hduration, List.map_singleton,
      number?_seconds (Writable.of_nonneg hlength.le)]

theorem proper_of_lateLayer : ∃ summary c, lateLayer.check = .ok summary ∧
    lateLayer.compile .serverFfmpeg "late.mp4" = .ok c ∧
    (∃ n ∈ readGraph c.graph, ∃ f ∈ n.filters, nameOf f = "overlay" ∧ Proper f) ∧
    (∀ n ∈ readGraph c.graph, ∀ f ∈ n.filters, nameOf f ≠ "overlay" → Proper f) ∧
    ∀ a ∈ lateLayer.timeline, 0 < a.outputDuration.toInt := by
  have hpassed : lateLayer.check.isOk = true := by decide +kernel
  obtain ⟨summary, hcheck⟩ := exists_of_isOk hpassed
  have hok : (lateLayer.compile .serverFfmpeg "late.mp4").isOk = true := by decide +kernel
  obtain ⟨c, hc⟩ := exists_of_isOk hok
  obtain ⟨_, hother, hlayers, _, _, hslack⟩ := proper_of_check hcheck hc
  have hlayer : ∃ a ∈ lateLayer.layerSegments, a.timelineStart.toInt < a.timelineEnd.toInt := by
    decide +kernel
  have hplayed : ∀ a ∈ lateLayer.timeline,
      a.FitsWords ∧ 2 ≤ (playedDuration a.trimStart a.trimEnd a.speed).toInt := by
    have hwords : ∀ a ∈ lateLayer.timeline,
        (a.outputDuration.toInt -
          (playedDuration a.trimStart a.trimEnd a.speed).toInt).natAbs < 2 ^ 63 ∧
        (a.timelineEnd.toInt - a.timelineStart.toInt - a.outputDuration.toInt).natAbs < 2 ^ 63 ∧
        2 ≤ (playedDuration a.trimStart a.trimEnd a.speed).toInt := by decide +kernel
    exact fun a ha => ⟨⟨fun _ _ _ => (hwords a ha).1, (hwords a ha).2.1⟩, (hwords a ha).2.2⟩
  refine ⟨summary, c, hcheck, hc, ?_, ?_, ?_⟩
  · obtain ⟨a, ha, hlt⟩ := hlayer
    obtain ⟨n, hn, f, hf, hname, _, hiff⟩ := hlayers a ha
    exact ⟨n, hn, f, hf, hname, hiff.2 hlt⟩
  · intro n hn f hf hname
    by_contra himproper
    exact hname (hother n hn f hf himproper).1
  · intro a ha
    obtain ⟨hfits, hlong⟩ := hplayed a ha
    exact (hslack a ha hfits).2.2.1 hlong

/-- A film of one second with a layer of a millisecond at four times its speed, which plays for less
than half a millisecond, has a length of minus one and ends two milliseconds before it begins. -/
def backwardLayer : Plan where
  id := "backward"
  projectId := none
  defaultUrl := none
  sources := []
  format := OutputFormat.ofSize 640 360
  timeline :=
    [⟨"s1", none, none, some "/uploads/a.mp4", 0, 1000, none, 0, 1000, 1000, 1, "video", 0, [],
      none⟩,
     ⟨"s2", none, none, some "/uploads/b.mp4", 0, 1, none, 0, -2, -1, 4, "video", 1, [], none⟩]
  audioTracks := []
  textOverlays := []
  summary := none

/-- The layer passes the check, is compiled to a negative time and is never seen. -/
theorem backwardLayer_never_acts : (∃ summary, backwardLayer.check = .ok summary) ∧
    (∃ a ∈ backwardLayer.timeline, a.outputDuration.toInt < 0 ∧
      a.timelineEnd.toInt < a.timelineStart.toInt) ∧
    ∃ c, backwardLayer.compile .serverFfmpeg "out.mp4" = .ok c ∧
      ∃ n ∈ readGraph c.graph, ∃ f ∈ n.filters, nameOf f = "overlay" ∧
        timesOf f = [some 0, some (-2 / 1000)] ∧ ∀ t, actsAt? t f = some false := by
  have hpassed : backwardLayer.check.isOk = true := by decide +kernel
  have hok : (backwardLayer.compile .serverFfmpeg "out.mp4").isOk = true := by decide +kernel
  obtain ⟨c, hc⟩ := exists_of_isOk hok
  obtain ⟨g, s, _, _, _, _, _, hread⟩ := read_of_compile hc
  obtain ⟨n, hn, _, _, hf, rfl, rfl⟩ :=
    (s.exists_overlay_iff (R := fun start stop => start = 0 ∧ stop = -2)).2 (by decide +kernel)
  have hwritable : Writable 0 ∧ Writable (-2) := by decide
  refine ⟨exists_of_isOk hpassed, by decide +kernel, c, hc, n.read,
    hread ▸ List.mem_map_of_mem hn, _, List.mem_map_of_mem hf, Filter.nameOf_text _, ?_,
    fun t => ?_⟩
  · rw [timesOf_text (s.confined hn hf)]
    norm_num [Filter.times, timeOf?, number?_seconds hwritable.1, number?_seconds hwritable.2]
  · rw [(enabled_overlay 0 (-2)).actsWithin hwritable.1 hwritable.2]
    simp only [Option.some.injEq, decide_eq_false_iff_not, not_and, not_lt]
    intro hfrom
    norm_num at hfrom ⊢
    exact le_trans (by norm_num) hfrom

end Plan

end RenderGateway
