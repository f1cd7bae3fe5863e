import Mathlib.Data.List.Induction
import Mathlib.Tactic.SplitIfs
import RenderGateway.EncoderRun

/-!
# What a snapshot of the progress says

The report on the progress is read off all the lines so far: each of its numbers is the last value
that reads under a key. A snapshot is the report up to the line that asks for it, so lines of the
log have no part in it.
-/

namespace RenderGateway

def ProgressLine.snapshot? : ProgressLine → Option Progress
  | snapshot p => some p
  | update | log => none

def RunEvent.snapshot? : RunEvent → Option Progress
  | progress p => some p
  | log _ => none

namespace Progress

/-! ### Lines -/

/-- The trimmed texts in front of the first equals sign of a line and behind it. -/
def assignment? (line : String) : Option (String × String) :=
  (Text.splitOnce? '=' (Text.trimChars line.toList)).map fun (key, value) =>
    (String.ofList (Text.trimChars key), String.ofList (Text.trimChars value))

def key? (line : String) : Option String := (assignment? line).map Prod.fst

/-- The value of a line, if its key is one of some keys. -/
def value? (keys : List String) (line : String) : Option String :=
  ((assignment? line).filter fun (key, _) => key ∈ keys).map Prod.snd

/-- A line without a key that the encoder reports under. -/
def isDiagnostic (line : String) : Bool := (key? line).all fun key => !isKey key

theorem value?_of_none {line : String} (h : assignment? line = none) (keys : List String) :
    value? keys line = none := by
  rw [value?, h]
  rfl

theorem value?_of_some {line key value : String} (h : assignment? line = some (key, value))
    (keys : List String) : value? keys line = if key ∈ keys then some value else none := by
  rw [value?, h, Option.filter_some]
  by_cases hkey : key ∈ keys <;> simp [hkey]

theorem filter_assignment? (line : String) :
    (assignment? line).filter (fun (key, _) => isKey key) = entry? line := by
  unfold assignment? entry?
  cases Text.splitOnce? '=' (Text.trimChars line.toList) with
  | none => rfl
  | some parts => rfl

/-! ### The last value that reads -/

section Latest

variable {α : Type} (keys : List String) (read : String → Option α)

/-- The last value under some keys that reads. -/
def latest (lines : List String) : Option α :=
  (lines.filterMap fun line => (value? keys line).bind read).getLast?

theorem latest_concat (lines : List String) (line : String) :
    latest keys read (lines ++ [line]) =
      ((value? keys line).bind read).or (latest keys read lines) := by
  rw [latest, List.filterMap_append, List.getLast?_append]
  cases hread : (value? keys line).bind read with
  | none => simp [hread, latest]
  | some a => simp [hread]

end Latest

def frameOf? (value : String) : Option UInt64 :=
  (Numeral.natBelow? (2 ^ 64) value).map UInt64.ofNat

/-- What lines say of the progress, zero where they do not say a number. -/
def report (lines : List String) : Progress where
  frame := (latest ["frame"] frameOf? lines).getD 0
  fps := (latest ["fps"] Binary64.ofText? lines).getD 0
  outTime :=
    let us := (latest ["out_time_us", "out_time_ms"] Numeral.int64? lines).getD 0
    Int64.ofInt (us.toInt.tdiv 1000)
  speed := (latest ["speed"] speedOf? lines).getD 0
  isComplete := lines.any fun line => value? ["progress"] line = some "end"

/-! ### One line -/

variable {p q : Progress} {line : String}

theorem feed_of_isDiagnostic (p : Progress) (h : isDiagnostic line = true) :
    p.feed line = (p, .log) := by
  have hnone : entry? line = none := by
    rw [← filter_assignment?]
    unfold isDiagnostic key? at h
    cases hline : assignment? line with
    | none => rfl
    | some parts => simpa [hline, Option.filter_some] using h
  rw [feed, hnone]

theorem feed_of_isKey (p : Progress) {key value : String}
    (h : assignment? line = some (key, value)) (hkey : isKey key = true) :
    p.feed line = (p.update key value,
      if key = "progress" then .snapshot (p.update key value) else .update) := by
  have hentry : entry? line = some (key, value) := by
    rw [← filter_assignment?, h, Option.filter_some, if_pos hkey]
  rw [feed, hentry]

/-- A line is of the log, or it has a key that the encoder reports under. -/
theorem isDiagnostic_or (line : String) : isDiagnostic line = true ∨
    ∃ key value, assignment? line = some (key, value) ∧ isKey key = true := by
  cases h : assignment? line with
  | none => exact .inl (by rw [isDiagnostic, key?, h]; rfl)
  | some parts =>
    obtain ⟨key, value⟩ := parts
    by_cases hkey : isKey key = true
    · exact .inr ⟨key, value, rfl, hkey⟩
    · exact .inl (by rw [isDiagnostic, key?, h]; simpa using hkey)

theorem feed_log_iff : (p.feed line).2 = .log ↔ isDiagnostic line = true := by
  refine ⟨fun h => ?_, fun h => by rw [feed_of_isDiagnostic p h]⟩
  obtain hline | ⟨key, value, hline, hkey⟩ := isDiagnostic_or line
  · exact hline
  · rw [feed_of_isKey p hline hkey] at h
    split at h <;> cases h

theorem feed_snapshot_iff :
    (p.feed line).2 = .snapshot q ↔ key? line = some "progress" ∧ q = (p.feed line).1 := by
  obtain hline | ⟨key, value, hline, hkey⟩ := isDiagnostic_or line
  · have hprogress : key? line ≠ some "progress" := by
      intro h
      rw [isDiagnostic, h] at hline
      exact absurd hline (by decide)
    simp [feed_of_isDiagnostic p hline, hprogress]
  · rw [feed_of_isKey p hline hkey, key?, hline]
    by_cases hprogress : key = "progress"
    · simp [hprogress, eq_comm]
    · simp [hprogress]

theorem value?_of_isDiagnostic (h : isDiagnostic line = true) {keys : List String}
    (hkeys : ∀ key ∈ keys, isKey key = true) : value? keys line = none := by
  cases hline : assignment? line with
  | none => exact value?_of_none hline keys
  | some parts =>
    obtain ⟨key, value⟩ := parts
    rw [value?_of_some hline, if_neg]
    intro hmem
    rw [isDiagnostic, key?, hline] at h
    simp [hkeys key hmem] at h

/-- A line adds to the report what its key stands for, and nothing else. -/
theorem report_concat (lines : List String) (line : String) :
    report (lines ++ [line]) = ((report lines).feed line).1 := by
  obtain hline | ⟨key, value, hline, hkey⟩ := isDiagnostic_or line
  · have hnone {keys : List String} (hkeys : ∀ key ∈ keys, isKey key = true) :
        value? keys line = none := value?_of_isDiagnostic hline hkeys
    rw [feed_of_isDiagnostic _ hline]
    simp only [report, latest_concat, List.any_append, List.any_cons, List.any_nil]
    rw [hnone (by decide), hnone (by decide), hnone (by decide), hnone (by decide),
      hnone (by decide)]
    simp
  · rw [feed_of_isKey _ hline hkey]
    dsimp only
    unfold update
    -- one case for each key that `update` knows; the other fields see no value under it
    split_ifs with htime hframe hfps hspeed hprogress
    · have hother : key ≠ "frame" ∧ key ≠ "fps" ∧ key ≠ "speed" ∧ key ≠ "progress" := by
        rcases htime with rfl | rfl <;> decide
      cases htext : Numeral.int64? value <;>
        simp [report, latest_concat, value?_of_some hline, htime, hother, outTimeOf?, htext]
    · subst hframe
      cases htext : Numeral.natBelow? (2 ^ 64) value <;>
        simp [report, latest_concat, value?_of_some hline, frameOf?, htext]
    · subst hfps
      cases htext : Binary64.ofText? value <;>
        simp [report, latest_concat, value?_of_some hline, htext]
    · subst hspeed
      cases htext : speedOf? value <;>
        simp [report, latest_concat, value?_of_some hline, htext]
    · subst hprogress
      simp [report, latest_concat, value?_of_some hline]
    · simp [report, latest_concat, value?_of_some hline, not_or.1 htime, hframe, hfps, hspeed,
        hprogress]

example : report ["frame=7", "frame=N/A", "out_time_ms=-1999", "progress=end", "fps=0"] =
    ⟨7, 0, -1, 0, true⟩ := by decide +kernel

/-- Thousandths of a number of microseconds are in range. -/
theorem toInt_outTime_report (lines : List String) : (report lines).outTime.toInt =
    ((latest ["out_time_us", "out_time_ms"] Numeral.int64? lines).getD 0).toInt.tdiv 1000 := by
  have hrange (us : Int64) : (Int64.ofInt (us.toInt.tdiv 1000)).toInt = us.toInt.tdiv 1000 := by
    have hlow := us.le_toInt
    have hhigh := us.toInt_lt
    have habs : (us.toInt.tdiv 1000).natAbs = us.toInt.natAbs / 1000 := Int.natAbs_tdiv ..
    exact Int64.toInt_ofInt_of_le (by omega) (by omega)
  exact hrange _

/-! ### All lines -/

/-- The report after some lines. -/
def after (p : Progress) (lines : List String) : Progress :=
  lines.foldl (fun p line => (p.feed line).1) p

/-- The snapshots that lines yield, in order. -/
def snapshots (p : Progress) (lines : List String) : List Progress :=
  (p.feedAll lines).filterMap ProgressLine.snapshot?

theorem after_initial (lines : List String) : initial.after lines = report lines := by
  induction lines using List.reverseRecOn with
  | nil => rfl
  | append_singleton lines line ih =>
    rw [report_concat, ← ih, after, List.foldl_append]
    rfl

theorem feedAll_getElem? (p : Progress) (lines : List String) (i : Nat) :
    (p.feedAll lines)[i]? =
      lines[i]?.map fun line => ((p.after (lines.take i)).feed line).2 := by
  induction lines generalizing p i with
  | nil => rfl
  | cons line lines ih =>
    cases i with
    | zero => rfl
    | succ i => exact ih (p.feed line).1 i

/-- Without the lines of the log the snapshots are the same. -/
theorem snapshots_filter (p : Progress) (lines : List String) :
    p.snapshots (lines.filter fun line => !isDiagnostic line) = p.snapshots lines := by
  induction lines generalizing p with
  | nil => rfl
  | cons line lines ih =>
    cases hline : isDiagnostic line with
    | true =>
      have hfeed := feed_of_isDiagnostic p hline
      rw [List.filter_cons_of_neg (by simp [hline]), ih, snapshots, snapshots, feedAll, hfeed]
      rfl
    | false =>
      rw [List.filter_cons_of_pos (by simp [hline]), snapshots, snapshots, feedAll, feedAll,
        List.filterMap_cons, List.filterMap_cons]
      have hrest := ih (p.feed line).1
      rw [snapshots, snapshots] at hrest
      rw [hrest]

end Progress

namespace EncoderRun.Reader

theorem report_read (room : Nat) (r : Reader) (line : String) :
    (r.read room line).1.report = (r.report.feed line).1 := by
  unfold read
  rcases r.report.feed line with ⟨p, _ | _ | _⟩
  · rfl
  · rfl
  · dsimp only
    split <;> rfl

theorem snapshot?_read (room : Nat) (r : Reader) (line : String) :
    (r.read room line).2.bind RunEvent.snapshot? = (r.report.feed line).2.snapshot? := by
  unfold read
  rcases r.report.feed line with ⟨p, _ | _ | _⟩
  · rfl
  · rfl
  · dsimp only
    split <;> rfl

/-- The reader of an output passes on the snapshots and nothing else of the progress. -/
theorem snapshots_readAll (room : Nat) (r : Reader) (lines : List String) :
    (r.readAll room lines).2.filterMap RunEvent.snapshot? = r.report.snapshots lines := by
  induction lines generalizing r with
  | nil => rfl
  | cons line lines ih =>
    have hevents : (r.readAll room (line :: lines)).2 =
        (r.read room line).2.toList ++ ((r.read room line).1.readAll room lines).2 := rfl
    have hline : (r.read room line).2.toList.filterMap RunEvent.snapshot? =
        (r.report.feed line).2.snapshot?.toList := by
      rw [← snapshot?_read room]
      cases (r.read room line).2 with
      | none => rfl
      | some event => cases hevent : event.snapshot? <;> simp [hevent]
    rw [hevents, List.filterMap_append, hline, ih, report_read, Progress.snapshots,
      Progress.snapshots, Progress.feedAll, List.filterMap_cons]
    cases (r.report.feed line).2.snapshot? <;> rfl

end EncoderRun.Reader

namespace Progress

/-- The snapshots are at the lines whose key asks for them and say what all lines so far say, each
number being the last that reads under its key. A line of the log leaves the report as it is, so
lines of the log that are added or left out change no snapshot, nor what the reader passes on. -/
theorem feedAll_initial (lines : List String) :
    (∀ (i : Nat) p, (initial.feedAll lines)[i]? = some (.snapshot p) ↔
      ∃ line, lines[i]? = some line ∧ key? line = some "progress" ∧
        p = report (lines.take (i + 1))) ∧
    (∀ i : Nat, (initial.feedAll lines)[i]? = some .log ↔
      ∃ line, lines[i]? = some line ∧ isDiagnostic line = true) ∧
    (report lines).outTime.toInt =
      ((latest ["out_time_us", "out_time_ms"] Numeral.int64? lines).getD 0).toInt.tdiv 1000 ∧
    (∀ p line, (feed p line).2 = .log → (feed p line).1 = p) ∧
    (∀ others : List String, (others.filter fun line => !isDiagnostic line) =
      (lines.filter fun line => !isDiagnostic line) →
      initial.snapshots others = initial.snapshots lines) ∧
    ∀ room, (EncoderRun.Reader.initial.readAll room lines).2.filterMap RunEvent.snapshot? =
      initial.snapshots lines := by
  refine ⟨fun i p => ?_, fun i => ?_, toInt_outTime_report lines, fun p line h => ?_,
    fun others h => ?_, fun room => EncoderRun.Reader.snapshots_readAll room .initial lines⟩
  · rw [feedAll_getElem?]
    cases hline : lines[i]? with
    | none => simp
    | some line =>
      have htake : lines.take (i + 1) = lines.take i ++ [line] := by
        rw [List.take_add_one, hline, Option.toList_some]
      simp [feed_snapshot_iff, after_initial, htake, report_concat]
  · rw [feedAll_getElem?]
    cases lines[i]? with
    | none => simp
    | some line => simp [feed_log_iff]
  · rw [feed_of_isDiagnostic p (feed_log_iff.1 h)]
  · rw [← snapshots_filter, h, snapshots_filter]

/-- A line of the log between the lines of a block changes nothing. -/
theorem snapshots_interrupted :
    initial.snapshots ["frame=120", "using cpu capabilities", "speed=1.5x", "progress=end"] =
      initial.snapshots ["frame=120", "speed=1.5x", "progress=end"] ∧
    (initial.feed "using cpu capabilities").1 = initial :=
  ⟨(feedAll_initial ["frame=120", "speed=1.5x", "progress=end"]).2.2.2.2.1
      ["frame=120", "using cpu capabilities", "speed=1.5x", "progress=end"] (by decide +kernel),
    (feedAll_initial []).2.2.2.1 initial "using cpu capabilities" (by decide +kernel)⟩

end Progress

end RenderGateway
