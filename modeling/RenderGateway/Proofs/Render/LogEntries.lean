import RenderGateway.Proofs.Job.RoundTrip
import RenderGateway.Proofs.Json.Lines
import RenderGateway.Render.LogEntry

/-!
# Lines of the log of failures

What is appended to the log leaves all that stands there as it was, and adds one line for each
entry. A line is read back as its entry exactly if the details of the entry nest no deeper than the
reader allows beneath the entry itself and all doubles in them are read back from their digits.
-/

namespace RenderGateway

open Json Json.Decoder

namespace Text

/-- The lines that have ended in a text. -/
def lines (text : String) : List String := (split '\n' text).dropLast

/-- A text of which every line has ended. -/
def IsLined (text : String) : Prop := text = "" ∨ hasSuffix "\n" text = true

/-- The text of some lines, each with its end. -/
def unlines : List String → String
  | [] => ""
  | line :: rest => (line ++ "\n") ++ unlines rest

theorem split_line (line rest : String) (h : '\n' ∉ line.toList) :
    split '\n' ((line ++ "\n") ++ rest) = line :: split '\n' rest := by
  have htext : ((line ++ "\n") ++ rest).toList = line.toList ++ '\n' :: rest.toList := by simp
  rw [split, split, htext, List.splitOn_append_cons_self, List.splitOn_eq_singleton h]
  simp

theorem split_unlines {texts : List String} (h : ∀ line ∈ texts, '\n' ∉ line.toList) :
    split '\n' (unlines texts) = texts ++ [""] := by
  induction texts with
  | nil => rfl
  | cons line texts ih =>
    obtain ⟨hline, htexts⟩ := List.forall_mem_cons.1 h
    rw [unlines, split_line line _ hline, ih htexts, List.cons_append]

theorem lines_unlines {texts : List String} (h : ∀ line ∈ texts, '\n' ∉ line.toList) :
    lines (unlines texts) = texts := by
  rw [lines, split_unlines h, List.dropLast_concat]

theorem count_unlines {texts : List String} (h : ∀ line ∈ texts, '\n' ∉ line.toList) :
    (unlines texts).toList.count '\n' = texts.length := by
  induction texts with
  | nil => rfl
  | cons line texts ih =>
    obtain ⟨hline, htexts⟩ := List.forall_mem_cons.1 h
    rw [unlines, String.toList_append, String.toList_append, List.count_append, List.count_append,
      List.count_eq_zero.2 hline, ih htexts, List.length_cons]
    change 0 + 1 + texts.length = _
    omega

theorem IsLined.exists_eq {text : String} (h : IsLined text) (hne : text ≠ "") :
    ∃ cs, text.toList = cs ++ ['\n'] := by
  obtain ⟨cs, hcs⟩ := List.isSuffixOf_iff_suffix.1 (h.resolve_left hne)
  exact ⟨cs, hcs.symm⟩

theorem isLined_of_toList {text : String} (cs : List Char) (h : text.toList = cs ++ ['\n']) :
    IsLined text :=
  .inr (List.isSuffixOf_iff_suffix.2 ⟨cs, h.symm⟩)

/-- Behind a text of which every line has ended, further lines stand apart from it. -/
theorem lines_append {text : String} (h : IsLined text) (more : String) :
    lines (text ++ more) = lines text ++ lines more := by
  by_cases hne : text = ""
  · subst hne
    simp [lines, split]
  · obtain ⟨cs, hcs⟩ := h.exists_eq hne
    have hmore : (more.toList.splitOn '\n').map String.ofList ≠ [] := by
      simp [List.splitOn_ne_nil]
    have hboth : (text ++ more).toList = cs ++ '\n' :: more.toList := by simp [hcs]
    rw [lines, lines, lines, split, split, split, hboth, hcs, List.splitOn_append_cons_self,
      List.splitOn_append_cons_self, List.map_append, List.map_append,
      List.dropLast_append_of_ne_nil hmore]
    simp

theorem IsLined.append_unlines {text : String} (h : IsLined text) (texts : List String) :
    IsLined (text ++ unlines texts) := by
  induction texts generalizing text with
  | nil => simp [unlines, h]
  | cons line texts ih =>
    have hline : IsLined (text ++ (line ++ "\n")) :=
      isLined_of_toList (text.toList ++ line.toList) (by simp)
    rw [unlines, ← String.append_assoc]
    exact ih hline

end Text

theorem Stage.reads (s : Stage) : Reads decoder toJson s := reads_name (by cases s <;> rfl)

theorem Decision.reads (d : Decision) : Reads decoder toJson d := reads_name (by cases d <;> rfl)

namespace LogEntry

/-- What an entry has to hold so that its form says all of it. -/
structure Writable (e : LogEntry) : Prop where
  details : e.fault.details ≠ some .null
  recordedAt : e.recordedAt.ReadsBack

def slots (e : LogEntry) : List Slot :=
  [("id", some (.text e.id)), ("jobId", some (.text e.jobId)),
   ("projectId", e.projectId.map .text), ("stage", some e.stage.toJson),
   ("code", some e.fault.code.toJson), ("message", some (.text e.fault.message)),
   ("details", e.fault.details.map fun details => details), ("attempt", some (ofUInt32 e.attempt)),
   ("decision", some e.decision.toJson), ("retryDelayMs", e.delay.map ofUInt64),
   ("recordedAt", some e.recordedAt.toJson)]

variable {e : LogEntry}

theorem toJson_eq (e : LogEntry) : e.toJson = .object (ofSlots e.slots) := by
  simp only [toJson, slots, ofSlots_some, ofSlots_map, ofSlots_nil, List.append_assoc,
    List.cons_append, List.nil_append]

theorem reads (h : e.Writable) : Reads decoder toJson e := by
  have hdetails : ∀ j ∈ e.fault.details, Reads any (fun details => details) j := by
    rintro j hj
    refine reads_any ?_
    rintro rfl
    exact h.details hj
  refine reads_record e.toJson_eq rfl (by simp [FailureRecord.fieldNames])
    fun record _ hslots => ?_
  simp only [slots, List.forall_mem_cons] at hslots
  obtain ⟨hid, hjobId, hprojectId, hstage, hcode, hmessage, hdetailsSlot, hattempt, hdecision,
    hdelay, hrecordedAt, -⟩ := hslots
  rw [Record.required_eq (reads_string _) hid, Record.required_eq (reads_string _) hjobId,
    Record.optional_eq (fun _ _ => reads_string _) hprojectId,
    Record.required_eq (Stage.reads _) hstage, Record.required_eq (FaultCode.reads _) hcode,
    Record.required_eq (reads_string _) hmessage, Record.optional_eq hdetails hdetailsSlot,
    Record.required_eq (reads_uint32 _) hattempt,
    Record.required_eq (Decision.reads _) hdecision,
    Record.optional_eq (fun _ _ => reads_uint64 _) hdelay,
    Record.required_eq (Instant.reads h.recordedAt) hrecordedAt]
  rfl

theorem depth_toJson_le_iff {n : Nat} :
    e.toJson.depth ≤ n + 1 ↔ ∀ j ∈ e.fault.details, j.depth ≤ n := by
  rw [toJson_eq, depth_ofSlots_le_iff]
  simp [slots, Stage.toJson, FaultCode.toJson, Decision.toJson, Instant.toJson]

theorem exact_toJson_iff : e.toJson.Exact ↔ ∀ j ∈ e.fault.details, j.Exact := by
  rw [toJson_eq, exact_ofSlots_iff]
  simp [slots, Stage.toJson, FaultCode.toJson, Decision.toJson, Instant.toJson]

/-- The details of an entry are found in the document it is read from, in a field of theirs. -/
theorem find?_details {r : Repeats} {document : Json} (h : decoder r document = some e) :
    ∃ record, Record.ofJson? FailureRecord.fieldNames r document = some record ∧
      ∀ j ∈ e.fault.details, record.find? "details" = some j := by
  refine of_record (P := fun e : LogEntry =>
    ∃ record, Record.ofJson? FailureRecord.fieldNames r document = some record ∧
      ∀ j ∈ e.fault.details, record.find? "details" = some j) (fun record hrecord => ?_) h
  iterate 6 refine forall_mem_bind fun _ _ => ?_
  refine forall_mem_bind fun details hdetails => ?_
  iterate 4 refine forall_mem_bind fun _ _ => ?_
  rintro _ ⟨⟩
  refine ⟨record, hrecord, fun j hj => ?_⟩
  cases hj
  exact (Fault.find?_of_optional_any hdetails).1

/-- The details of an entry nest no deeper than the reader allows beneath the entry, and their
doubles are read back. -/
def Legible (e : LogEntry) : Prop := ∀ j ∈ e.fault.details, j.depth + 1 ≤ maxDepth ∧ j.Exact

theorem legible_iff : e.Legible ↔ e.toJson.depth ≤ maxDepth ∧ e.toJson.Exact := by
  have hdepth : e.toJson.depth ≤ maxDepth ↔ ∀ j ∈ e.fault.details, j.depth ≤ 126 :=
    depth_toJson_le_iff
  have hmax : maxDepth = 126 + 1 := rfl
  rw [hdepth, exact_toJson_iff, ← forall₂_and, Legible, hmax]
  simp only [Nat.add_le_add_iff_right]

/-- An entry that is read from the document its line is read as has exact details. -/
theorem exact_details_of_reread {document : Json} (hreread : e.toJson.reread = some document)
    {r : Repeats} (h : decoder r document = some e) : ∀ j ∈ e.fault.details, j.Exact := by
  intro j hj
  rw [toJson_eq] at hreread
  obtain ⟨again, hagain, rfl⟩ := Option.map_eq_some_iff.1 hreread
  obtain ⟨record, hrecord, hfind⟩ := find?_details h
  have hrecordAgain : record.find? "details" = lookup "details" again := by
    simp only [Record.ofJson?] at hrecord
    split at hrecord
    · cases hrecord
    · cases hrecord
      rfl
  have hnodup : (e.slots.map Prod.fst).Nodup := by
    have hnames : e.slots.map Prod.fst = FailureRecord.fieldNames := rfl
    rw [hnames]
    simp [FailureRecord.fieldNames]
  have hslot : ("details", some j) ∈ e.slots := by
    have hdetails : e.fault.details.map (fun details => details) = some j := by
      rw [hj]
      rfl
    simp [slots, hdetails]
  have hlookup := lookup_ofSlots hnodup hslot
  have hrel := lookup_rereadFields hagain "details"
  rw [hlookup, ← hrecordAgain, hfind j hj] at hrel
  cases hrel with
  | some hj => exact reread_eq_some_iff.1 hj

/-- The line of an entry holds the entry exactly if its details are legible. -/
theorem ofLine?_line_iff (h : e.Writable) : ofLine? e.line = some e ↔ e.Legible := by
  constructor
  · intro hread
    obtain ⟨document, hdocument, he⟩ := Option.bind_eq_some_iff.1 hread
    obtain ⟨record, hrecord, hfind⟩ := find?_details he
    have hshallow : ∀ j ∈ e.fault.details, j.depth ≤ 126 := fun j hj =>
      Nat.le_of_lt_succ ((depth_lt_of_find? hrecord (hfind j hj)).trans_le
        (depth_le_of_read? hdocument))
    rw [line, read?_write_of_depth_le (depth_toJson_le_iff.2 hshallow)] at hdocument
    exact fun j hj => ⟨Nat.succ_le_succ (hshallow j hj), exact_details_of_reread hdocument he j hj⟩
  · intro hlegible
    rw [ofLine?, line, Json.read?_write_iff.2 (legible_iff.1 hlegible), Option.bind_some]
    exact (reads h).2 _

theorem mapM_ofLine?_iff {entries : List LogEntry} (h : ∀ e ∈ entries, e.Writable) :
    (entries.map line).mapM ofLine? = some entries ↔ ∀ e ∈ entries, e.Legible := by
  induction entries with
  | nil => simp
  | cons e entries ih =>
    obtain ⟨he, hentries⟩ := List.forall_mem_cons.1 h
    rw [List.forall_mem_cons, ← ih hentries, ← ofLine?_line_iff he, List.map_cons, List.mapM_cons]
    constructor
    · intro hall
      obtain ⟨first, hfirst, hall⟩ := Option.bind_eq_some_iff.1 hall
      obtain ⟨rest, hrest, heq⟩ := Option.bind_eq_some_iff.1 hall
      cases heq
      exact ⟨hfirst, hrest⟩
    · rintro ⟨hfirst, hrest⟩
      rw [hfirst, hrest]
      rfl

/-- Entries appended one after the other. -/
def appendAll (log : String) (entries : List LogEntry) : String := entries.foldl append log

theorem appendAll_eq (log : String) (entries : List LogEntry) :
    appendAll log entries = log ++ Text.unlines (entries.map line) := by
  induction entries generalizing log with
  | nil => simp [appendAll, Text.unlines]
  | cons e entries ih =>
    change appendAll (append log e) entries = _
    rw [ih, append, List.map_cons, Text.unlines, String.append_assoc]

theorem newline_not_mem_lines (entries : List LogEntry) :
    ∀ text ∈ entries.map line, '\n' ∉ text.toList := by
  intro text htext
  obtain ⟨e, _, rfl⟩ := List.mem_map.1 htext
  exact e.toJson.newline_not_mem_write

/-- Appending leaves the log as it was and adds one line for each entry. The added lines are read
back as the entries exactly if none of them has details that nest too deep or hold a double that is
not read back. -/
theorem lines_of_appendAll {log : String} {entries : List LogEntry} (hlog : Text.IsLined log)
    (h : ∀ e ∈ entries, e.Writable) :
    ∃ added, appendAll log entries = log ++ added ∧ Text.IsLined (log ++ added) ∧
      added.toList.count '\n' = entries.length ∧
      Text.lines (log ++ added) = Text.lines log ++ Text.lines added ∧
      (Text.lines added).length = entries.length ∧
      ((Text.lines added).mapM ofLine? = some entries ↔ ∀ e ∈ entries, e.Legible) := by
  have hlines := Text.lines_unlines (newline_not_mem_lines entries)
  refine ⟨Text.unlines (entries.map line), appendAll_eq log entries, hlog.append_unlines _, ?_,
    Text.lines_append hlog _, ?_, ?_⟩
  · rw [Text.count_unlines (newline_not_mem_lines entries), List.length_map]
  · rw [hlines, List.length_map]
  · rw [hlines]
    exact mapM_ofLine?_iff h

/-- A report with line breaks, quotes and a control character in its texts. -/
def report : Json :=
  .object [("stderr", .text "a\nb \"c\"\x07"), ("codes", .array [.null, ofUInt32 503])]

def reportedEntry : LogEntry where
  id := "r1"
  jobId := "j"
  projectId := none
  stage := .encode
  fault := ⟨.ffmpeg, "failed:\n\"no frame\"", some report⟩
  attempt := 2
  decision := .retry
  delay := none
  recordedAt := ⟨20000, 3661, 5000000⟩

theorem writable_reportedEntry : reportedEntry.Writable :=
  ⟨nofun, by unfold Instant.ReadsBack; decide +kernel⟩

theorem lines_of_reportedEntry :
    Text.IsLined "" ∧ reportedEntry.Writable ∧
      ∃ added, appendAll "" [reportedEntry, reportedEntry] = "" ++ added ∧
        added.toList.count '\n' = 2 ∧
        (Text.lines added).mapM ofLine? = some [reportedEntry, reportedEntry] := by
  have hlog : Text.IsLined "" := .inl rfl
  have hwritable : ∀ e ∈ [reportedEntry, reportedEntry], e.Writable := by
    simp [writable_reportedEntry]
  have hlegible : ∀ e ∈ [reportedEntry, reportedEntry], e.Legible := by
    have hreport : report.depth + 1 ≤ maxDepth ∧ report.Exact := by decide +kernel
    simpa [Legible, reportedEntry] using hreport
  obtain ⟨added, happended, _, hcount, _, _, hread⟩ := lines_of_appendAll hlog hwritable
  exact ⟨hlog, writable_reportedEntry, added, happended, hcount, hread.2 hlegible⟩

/-- Arrays in each other, one more than the reader allows beneath an entry. -/
def deepReport : Json := Nat.repeat (fun j => .array [j]) 126 (.array [])

def deepEntry : LogEntry :=
  { reportedEntry with fault := ⟨.ffmpeg, "no frame", some deepReport⟩ }

/-- A double of which the text is read as the next double above it. -/
def oneEleventh : Json := .number ⟨false, 6550690367084358, -56, by decide⟩

def ratedEntry : LogEntry :=
  { reportedEntry with fault := ⟨.ffmpeg, "no frame", some oneEleventh⟩ }

theorem not_readsBack_deepEntry :
    Text.IsLined "" ∧ ∀ e ∈ [deepEntry, ratedEntry], e.Writable ∧
      (Text.lines (appendAll "" [e])).mapM ofLine? ≠ some [e] := by
  refine ⟨.inl rfl, fun e he => ?_⟩
  have hwritable : e.Writable := by
    rcases List.mem_pair.1 he with rfl | rfl <;> exact ⟨nofun, writable_reportedEntry.recordedAt⟩
  refine ⟨hwritable, ?_⟩
  rw [appendAll_eq, String.empty_append, Text.lines_unlines (newline_not_mem_lines _), Ne,
    mapM_ofLine?_iff (by simpa using hwritable), List.forall_mem_singleton]
  intro hlegible
  rcases List.mem_pair.1 he with rfl | rfl
  · have hdeep := (hlegible deepReport rfl).1
    revert hdeep
    decide +kernel
  · have hrated := (hlegible oneEleventh rfl).2
    revert hrated
    decide +kernel

end LogEntry

end RenderGateway
