import RenderGateway.Job.Wire
import RenderGateway.Proofs.Plan.RoundTrip

/-!
# Jobs through JSON

A job is read back from its wire form as it was, also beside other fields, if the doubles of its
plan are finite, the details of its fault are not `null`, and the text of each of its instants
reads back. From the text of that form it is read back if the doubles in it are read back from their
digits. The form nests as deep as the details of the fault ask for, and only these can make its text
too deep to be read.
-/

namespace RenderGateway

open Json Json.Decoder

section Names

theorem Engine.ofName?_name (e : Engine) : ofName? e.name = some e := by
  cases e <;> rfl

theorem Capability.ofName?_name (c : Capability) : ofName? c.name = some c := by
  cases c <;> rfl

theorem JobStatus.ofName?_name (s : JobStatus) : ofName? s.name = some s := by
  cases s <;> rfl

theorem FaultCode.ofName?_name (c : FaultCode) : ofName? c.name = some c := by
  cases c <;> rfl

theorem Engine.reads (e : Engine) : Reads decoder toJson e := reads_name e.ofName?_name

theorem Capability.reads (c : Capability) : Reads decoder toJson c := reads_name c.ofName?_name

theorem JobStatus.reads (s : JobStatus) : Reads decoder toJson s := reads_name s.ofName?_name

theorem FaultCode.reads (c : FaultCode) : Reads decoder toJson c := reads_name c.ofName?_name

end Names

namespace Rejection

def slots (r : Rejection) : List Slot :=
  [("engine", some r.engine.toJson), ("missing", some (ofList Capability.toJson r.missing))]

theorem toJson_eq (r : Rejection) : r.toJson = .object (ofSlots r.slots) := rfl

theorem reads (r : Rejection) : Reads decoder toJson r := by
  refine reads_record r.toJson_eq rfl (by simp) fun record _ hslots => ?_
  simp only [slots, List.forall_mem_cons] at hslots
  obtain ⟨hengine, hmissing, -⟩ := hslots
  rw [Record.required_eq (Engine.reads _) hengine,
    Record.required_eq (reads_list fun _ _ => Capability.reads _) hmissing]
  rfl

theorem depth_toJson_le (r : Rejection) : r.toJson.depth ≤ 2 := by
  rw [toJson_eq]
  apply depth_ofSlots_le_iff.2
  have hmissing : (ofList Capability.toJson r.missing).depth ≤ 1 :=
    depth_ofList_le fun _ _ => le_rfl
  simpa [slots, Engine.toJson] using hmissing

end Rejection

namespace Fault

def slots (f : Fault) : List Slot :=
  [("code", some f.code.toJson), ("message", some (.text f.message)),
   ("details", f.details.map id)]

theorem toJson_eq (f : Fault) : f.toJson = .object (ofSlots f.slots) := by
  simp only [toJson, slots, ofSlots_some, ofSlots_map, ofSlots_nil, List.append_nil,
    List.cons_append, List.nil_append]

/-- A fault is read from its form, unless its details are `null`. -/
theorem reads {f : Fault} (h : f.details ≠ some .null) : Reads decoder toJson f := by
  have hdetails : ∀ j ∈ f.details, Reads any id j := by
    rintro j hj
    refine reads_any ?_
    rintro rfl
    exact h hj
  refine reads_record f.toJson_eq rfl (by simp) fun record _ hslots => ?_
  simp only [slots, List.forall_mem_cons] at hslots
  obtain ⟨hcode, hmessage, hdetailsSlot, -⟩ := hslots
  rw [Record.required_eq (FaultCode.reads _) hcode,
    Record.required_eq (reads_string _) hmessage, Record.optional_eq hdetails hdetailsSlot]
  rfl

/-- A document that stands for an optional one is not `null`, which stands for none. -/
theorem find?_of_optional_any {record : Record} {name : String} {j : Json}
    (h : record.optional name any = some (some j)) :
    record.find? name = some j ∧ j ≠ .null := by
  unfold Record.optional Record.withDefault at h
  split at h
  · cases h
  next k hk =>
    unfold nullable at h
    split at h
    next => cases h
    next hnull =>
      cases h
      exact ⟨hk, hnull⟩

theorem yields : Yields decoder fun f => f.details ≠ some .null := by
  refine yields_record fun record => ?_
  iterate 2 refine forall_mem_bind fun _ _ => ?_
  refine forall_mem_bind fun details hdetails => ?_
  rintro _ ⟨⟩ hnull
  cases hnull
  exact (find?_of_optional_any hdetails).2 rfl

theorem depth_toJson_le_iff {f : Fault} {n : Nat} :
    f.toJson.depth ≤ n + 1 ↔ ∀ j ∈ f.details, j.depth ≤ n := by
  rw [toJson_eq, depth_ofSlots_le_iff]
  simp [slots, FaultCode.toJson]

theorem exact_toJson_iff {f : Fault} : f.toJson.Exact ↔ ∀ j ∈ f.details, j.Exact := by
  rw [toJson_eq, exact_ofSlots_iff]
  simp [slots, FaultCode.toJson]

/-- The details of a fault nest less deep than the document they are read from. -/
theorem depth_details_lt {r : Repeats} {document : Json} {f : Fault}
    (h : decoder r document = some f) : ∀ j ∈ f.details, j.depth < document.depth := by
  refine of_record (P := fun f : Fault => ∀ j ∈ f.details, j.depth < document.depth)
    (fun record hrecord => ?_) h
  iterate 2 refine forall_mem_bind fun _ _ => ?_
  refine forall_mem_bind fun details hdetails => ?_
  rintro _ ⟨⟩ j hj
  cases hj
  exact depth_lt_of_find? hrecord (find?_of_optional_any hdetails).1

end Fault

namespace JobArtifacts

def slots (a : JobArtifacts) : List Slot :=
  [("engine", some a.engine.toJson),
   ("fallbackChain", some (ofList Rejection.toJson a.fallbackChain)),
   ("command", some (.text a.command)), ("args", some (ofList .text a.args)),
   ("plan", some a.plan.toJson)]

theorem toJson_eq (a : JobArtifacts) : a.toJson = .object (ofSlots a.slots) := rfl

theorem reads {a : JobArtifacts} (h : AllFinite a.plan.numbers) : Reads decoder toJson a := by
  refine reads_record a.toJson_eq rfl (by simp) fun record _ hslots => ?_
  simp only [slots, List.forall_mem_cons] at hslots
  obtain ⟨hengine, hfallbackChain, hcommand, hargs, hplan, -⟩ := hslots
  rw [Record.required_eq (Engine.reads _) hengine,
    Record.required_eq (reads_list fun _ _ => Rejection.reads _) hfallbackChain,
    Record.required_eq (reads_string _) hcommand,
    Record.required_eq (reads_list fun _ _ => reads_string _) hargs,
    Record.required_eq (Plan.reads h) hplan]
  rfl

theorem yields : Yields decoder fun a => AllFinite a.plan.numbers := by
  refine yields_record fun record => ?_
  iterate 4 refine forall_mem_bind fun _ _ => ?_
  refine forall_mem_bind fun plan hplan => ?_
  rintro _ ⟨⟩
  exact Plan.yields.required hplan

theorem depth_toJson_le (a : JobArtifacts) : a.toJson.depth ≤ 6 := by
  rw [toJson_eq]
  apply depth_ofSlots_le_iff.2
  have hfallbackChain : (ofList Rejection.toJson a.fallbackChain).depth ≤ 5 :=
    depth_ofList_le fun r _ => r.depth_toJson_le.trans (by decide)
  have hargs : (ofList .text a.args).depth ≤ 5 := depth_ofList_le fun _ _ => Nat.zero_le _
  have hplan := a.plan.depth_toJson_le
  simpa [slots, Engine.toJson] using ⟨hfallbackChain, hargs, hplan⟩

end JobArtifacts

/-- Whether the text of an instant is read as the instant. -/
def Instant.ReadsBack (t : Instant) : Prop := ofText? t.toText = some t

theorem Instant.reads {t : Instant} (h : t.ReadsBack) : Reads decoder toJson t := by
  refine ⟨nofun, fun r => ?_⟩
  rw [decoder, toJson, text?, Option.bind_some]
  exact h

namespace Job

/-- The instants in a job. -/
def instants (j : Job) : List Instant :=
  j.createdAt :: j.startedAt.toList ++ j.completedAt.toList

/-- What a job has to hold so that its form says all of it. -/
structure Writable (j : Job) : Prop where
  numbers : ∀ a ∈ j.artifacts, AllFinite a.plan.numbers
  details : ∀ f ∈ j.error, f.details ≠ some .null
  instants : ∀ t ∈ j.instants, t.ReadsBack

def slots (j : Job) : List Slot :=
  [("jobId", some (.text j.id)), ("planId", some (.text j.planId)),
   ("projectId", j.projectId.map .text), ("status", some j.status.toJson),
   ("queuePosition", some (ofUInt64 j.queuePosition)), ("progressPct", some (ofUInt8 j.progress)),
   ("logsTail", some (ofList .text j.logsTail)), ("engine", j.engine.map Engine.toJson),
   ("fallbackChain", nonEmpty Rejection.toJson j.fallbackChain),
   ("outputUrl", j.outputUrl.map .text), ("outputSize", j.outputSize.map ofUInt64),
   ("durationMs", j.duration.map ofUInt64), ("error", j.error.map Fault.toJson),
   ("artifacts", j.artifacts.map JobArtifacts.toJson), ("createdAt", some j.createdAt.toJson),
   ("startedAt", j.startedAt.map Instant.toJson),
   ("completedAt", j.completedAt.map Instant.toJson)]

theorem fields_eq (j : Job) : j.fields = ofSlots j.slots := by
  simp [fields, slots, texts]

/-- A job is read from the slots of its fields, among others too. -/
theorem decoder_ofSlots {j : Job} (h : j.Writable) {slots : List Slot} (hslots : j.slots ⊆ slots)
    (hnodup : (slots.map Prod.fst).Nodup) (r : Repeats) :
    decoder r (.object (ofSlots slots)) = some j := by
  have hinstants := h.instants
  simp only [Job.instants, List.cons_append, List.forall_mem_cons, List.forall_mem_append,
    Option.mem_toList] at hinstants
  obtain ⟨hcreatedAt, hstartedAt, hcompletedAt⟩ := hinstants
  refine reads_slots hnodup (fun record hrecord hfound => ?_) r
  have hfields : ∀ slot ∈ j.slots, record.find? slot.1 = slot.2 := fun slot hslot =>
    hfound slot (hslots hslot)
  simp only [Job.slots, List.forall_mem_cons] at hfields
  obtain ⟨hid, hplanId, hprojectId, hstatus, hqueuePosition, hprogress, hlogsTail, hengine,
    hfallbackChain, houtputUrl, houtputSize, hduration, herror, hartifacts, hcreatedAtSlot,
    hstartedAtSlot, hcompletedAtSlot, -⟩ := hfields
  rw [Record.required_eq (reads_string _) hid, Record.required_eq (reads_string _) hplanId,
    Record.mentioned_eq hrecord (fun _ _ => reads_string _) hprojectId,
    Record.required_eq (JobStatus.reads _) hstatus,
    Record.required_eq (reads_uint64 _) hqueuePosition,
    Record.required_eq (reads_uint8 _) hprogress,
    Record.withDefault_eq (reads_list fun _ _ => reads_string _) hlogsTail,
    Record.mentioned_eq hrecord (fun _ _ => Engine.reads _) hengine,
    Record.withDefault_nil_eq (fun _ _ => Rejection.reads _) hfallbackChain,
    Record.mentioned_eq hrecord (fun _ _ => reads_string _) houtputUrl,
    Record.mentioned_eq hrecord (fun _ _ => reads_uint64 _) houtputSize,
    Record.mentioned_eq hrecord (fun _ _ => reads_uint64 _) hduration,
    Record.mentioned_eq hrecord (fun f hf => Fault.reads (h.details f hf)) herror,
    Record.mentioned_eq hrecord (fun a ha => JobArtifacts.reads (h.numbers a ha)) hartifacts,
    Record.required_eq (Instant.reads hcreatedAt) hcreatedAtSlot,
    Record.mentioned_eq hrecord (fun t ht => Instant.reads (hstartedAt t ht)) hstartedAtSlot,
    Record.mentioned_eq hrecord (fun t ht => Instant.reads (hcompletedAt t ht)) hcompletedAtSlot]
  rfl

theorem nodup_fieldNames : fieldNames.Nodup := by
  simp [fieldNames]

theorem reads {j : Job} (h : j.Writable) : Reads decoder toJson j := by
  refine ⟨nofun, fun r => ?_⟩
  have hnames : j.slots.map Prod.fst = fieldNames := rfl
  rw [toJson, fields_eq]
  exact decoder_ofSlots h (List.Subset.refl _) (hnames ▸ nodup_fieldNames) r

/-- What is read from any document can be written, up to its instants. -/
theorem yields : Yields decoder fun j =>
    (∀ a ∈ j.artifacts, AllFinite a.plan.numbers) ∧ ∀ f ∈ j.error, f.details ≠ some .null := by
  refine yields_record fun record => ?_
  iterate 12 refine forall_mem_bind fun _ _ => ?_
  refine forall_mem_bind fun error herror => ?_
  refine forall_mem_bind fun artifacts hartifacts => ?_
  iterate 3 refine forall_mem_bind fun _ _ => ?_
  rintro _ ⟨⟩
  exact ⟨JobArtifacts.yields.mentioned hartifacts, Fault.yields.mentioned herror⟩

/-- How deep the form of a job nests is up to the details of its fault. -/
theorem depth_toJson_le_iff {j : Job} {n : Nat} (hn : 6 ≤ n) :
    j.toJson.depth ≤ n + 1 ↔ ∀ f ∈ j.error, f.toJson.depth ≤ n := by
  have hlogsTail : (ofList .text j.logsTail).depth ≤ n :=
    (depth_ofList_le (d := 0) fun _ _ => le_rfl).trans (by omega)
  have hfallbackChain : ∀ k ∈ nonEmpty Rejection.toJson j.fallbackChain, k.depth ≤ n :=
    fun k hk => (depth_nonEmpty_le (fun r _ => r.depth_toJson_le) k hk).trans (by omega)
  have hartifacts : ∀ a ∈ j.artifacts, a.toJson.depth ≤ n := fun a _ =>
    a.depth_toJson_le.trans hn
  rw [toJson, fields_eq, depth_ofSlots_le_iff]
  simp only [Option.mem_def] at hfallbackChain hartifacts
  simp +contextual [slots, JobStatus.toJson, Engine.toJson, Instant.toJson, hlogsTail,
    hfallbackChain, hartifacts]

/-- The details of a fault nest less deep than the job they are read with. -/
theorem depth_details_lt {r : Repeats} {document : Json} {j : Job}
    (h : decoder r document = some j) :
    ∀ f ∈ j.error, ∀ k ∈ f.details, k.depth + 1 < document.depth := by
  refine of_record (P := fun j : Job => ∀ f ∈ j.error, ∀ k ∈ f.details,
    k.depth + 1 < document.depth) (fun record hrecord => ?_) h
  iterate 12 refine forall_mem_bind fun _ _ => ?_
  refine forall_mem_bind fun error herror => ?_
  iterate 4 refine forall_mem_bind fun _ _ => ?_
  rintro _ ⟨⟩ f rfl k hk
  obtain ⟨part, hpart, hfault⟩ := exists_of_mentioned herror
  have hlt := depth_lt_of_find? hrecord hpart
  have hdetails := Fault.depth_details_lt hfault k hk
  omega

theorem writable_of_decoder {r : Repeats} {document : Json} {j : Job}
    (h : decoder r document = some j) (hinstants : ∀ t ∈ j.instants, t.ReadsBack) :
    j.Writable :=
  ⟨(yields h).1, (yields h).2, hinstants⟩

/-- The form of a job nests too deep for the reader only if the details of its fault do. -/
theorem depth_toJson_le_maxDepth_iff {j : Job} :
    j.toJson.depth ≤ maxDepth ↔ ∀ f ∈ j.error, ∀ k ∈ f.details, k.depth + 2 ≤ maxDepth := by
  have hdepth : j.toJson.depth ≤ maxDepth ↔ ∀ f ∈ j.error, f.toJson.depth ≤ 126 :=
    depth_toJson_le_iff (by decide)
  rw [hdepth]
  refine forall₂_congr fun f _ => ?_
  rw [Fault.depth_toJson_le_iff]
  refine forall₂_congr fun k _ => ?_
  have hmax : maxDepth = 127 := rfl
  omega

/-- The text of a job with exact doubles is read as the job exactly if it is not too deep. -/
theorem read?_write_iff {j : Job} (h : j.Writable) (hexact : j.toJson.Exact) (r : Repeats) :
    (read? j.toJson.write).bind (decoder r) = some j ↔
      ∀ f ∈ j.error, ∀ k ∈ f.details, k.depth + 2 ≤ maxDepth := by
  constructor
  · intro hread f hf k hk
    obtain ⟨document, hdocument, hj⟩ := Option.bind_eq_some_iff.1 hread
    have hdepth := depth_le_of_read? hdocument
    have hlt := depth_details_lt hj f hf k hk
    omega
  · intro hdetails
    rw [Json.read?_write_iff.2 ⟨depth_toJson_le_maxDepth_iff.2 hdetails, hexact⟩, Option.bind_some]
    exact (reads h).2 r

end Job

theorem Plan.read?_write {p : Plan} (h : AllFinite p.numbers) (hexact : p.toJson.Exact)
    (r : Repeats) : (read? p.toJson.write).bind (decoder r) = some p := by
  have hdepth : p.toJson.depth ≤ maxDepth := p.depth_toJson_le.trans (by decide)
  rw [Json.read?_write_iff.2 ⟨hdepth, hexact⟩, Option.bind_some]
  exact (reads h).2 r

/-- A plan as callers write it: what has a default is left out, what is absent is `null`, an empty
list is there, and so is a field that no plan has. -/
def looseDocument : Json :=
  .object [("plan_id", .text "p"), ("project_id", .null), ("note", .bool true),
    ("sources", .array []),
    ("output_format", .object [("width", ofUInt32 640), ("height", ofUInt32 360)]),
    ("timeline", .array []),
    ("audio_tracks", .array [.object [("audio_id", .text "a"), ("trim_start_ms", ofInt64 0),
      ("trim_end_ms", ofInt64 500), ("timeline_start_ms", ofInt64 0)]])]

def loosePlan : Plan where
  id := "p"
  projectId := none
  defaultUrl := none
  sources := []
  format := ⟨.mp4, 640, 360, OutputFormat.defaultFps, none, OutputFormat.defaultAudioBitrate, none,
    none⟩
  timeline := []
  audioTracks := [⟨"a", none, none, 0, 500, 0, none, 1, 0, 0, 1, AudioTrack.defaultTrack⟩]
  textOverlays := []
  summary := none

theorem decoder_looseDocument (r : Repeats) : Plan.decoder r looseDocument = some loosePlan := by
  cases r <;> decide +kernel

theorem toJson_loosePlan_ne : loosePlan.toJson ≠ looseDocument := by
  intro h
  have hnote : (loosePlan.toJson.field? "note").isSome = (looseDocument.field? "note").isSome := by
    rw [h]
  revert hnote
  decide +kernel

/-- Plans and jobs are read from their forms as they were. From the text of its form a plan is read
as it was if the doubles in it are read back from their digits, and so is a job if it is not too
deep besides. What is read from a document, and from a text, is read from its own form again, though
that may be another document. -/
theorem codecs_invert (r again : Repeats) :
    (∀ p : Plan, AllFinite p.numbers → Plan.decoder r p.toJson = some p ∧
      (p.toJson.Exact → (read? p.toJson.write).bind (Plan.decoder r) = some p)) ∧
    (∀ j : Job, j.Writable → Job.decoder r j.toJson = some j ∧
      (j.toJson.Exact → ((read? j.toJson.write).bind (Job.decoder r) = some j ↔
        ∀ f ∈ j.error, ∀ k ∈ f.details, k.depth + 2 ≤ maxDepth))) ∧
    (∀ (document : Json) (p : Plan), Plan.decoder r document = some p →
      Plan.decoder again p.toJson = some p) ∧
    (∀ (document : Json) (j : Job), Job.decoder r document = some j →
      (∀ t ∈ j.instants, t.ReadsBack) → Job.decoder again j.toJson = some j) ∧
    (∀ (s : String) (p : Plan), (read? s).bind (Plan.decoder r) = some p → p.toJson.Exact →
      (read? p.toJson.write).bind (Plan.decoder again) = some p) ∧
    (∀ (s : String) (j : Job), (read? s).bind (Job.decoder r) = some j →
      (∀ t ∈ j.instants, t.ReadsBack) → j.toJson.Exact →
      (read? j.toJson.write).bind (Job.decoder again) = some j) ∧
    ∃ (document : Json) (p : Plan), Plan.decoder r document = some p ∧ p.toJson ≠ document := by
  refine ⟨fun p hp => ⟨(Plan.reads hp).2 r, fun hexact => Plan.read?_write hp hexact r⟩,
    fun j hj => ⟨(Job.reads hj).2 r, fun hexact => Job.read?_write_iff hj hexact r⟩,
    fun document p hp => (Plan.reads (Plan.yields hp)).2 again,
    fun document j hj hinstants => ?_, fun s p hp hexact => ?_,
    fun s j hj hinstants hexact => ?_, ?_⟩
  · exact (Job.reads (Job.writable_of_decoder hj hinstants)).2 again
  · obtain ⟨document, -, hp⟩ := Option.bind_eq_some_iff.1 hp
    exact Plan.read?_write (Plan.yields hp) hexact again
  · obtain ⟨document, hdocument, hj⟩ := Option.bind_eq_some_iff.1 hj
    refine (Job.read?_write_iff (Job.writable_of_decoder hj hinstants) hexact again).2
      fun f hf k hk => ?_
    have hdepth := depth_le_of_read? hdocument
    have hlt := Job.depth_details_lt hj f hf k hk
    omega
  · exact ⟨looseDocument, loosePlan, decoder_looseDocument r, toJson_loosePlan_ne⟩

/-- A job with a report of its failure and with artifacts. -/
def reportedJob : Job :=
  { Job.queued "j" loosePlan 0 ⟨20000, 3661, 5000000⟩ with
    status := .error
    error := some ⟨.ffmpeg, "no frame", some (.object [("line", .null)])⟩
    artifacts := some ⟨.planExport, [⟨.cloudinary, [.audioMux]⟩], "ffmpeg", ["-y"], loosePlan⟩
    startedAt := some ⟨20000, 3662, 0⟩
    completedAt := some ⟨20001, 0, 999999999⟩ }

theorem allFinite_loosePlan : AllFinite loosePlan.numbers := by
  unfold AllFinite
  decide +kernel

theorem readsBack_reportedJob : ∀ t ∈ reportedJob.instants, t.ReadsBack := by
  have hreads : ∀ t ∈ ([⟨20000, 3661, 5000000⟩, ⟨20000, 3662, 0⟩, ⟨20001, 0, 999999999⟩] :
      List Instant), t.ReadsBack := by
    unfold Instant.ReadsBack
    decide +kernel
  exact hreads

theorem writable_reportedJob : reportedJob.Writable := by
  refine ⟨?_, ?_, readsBack_reportedJob⟩
  · rintro _ ⟨⟩
    exact allFinite_loosePlan
  · rintro _ ⟨⟩
    nofun

theorem shallow_reportedJob :
    ∀ f ∈ reportedJob.error, ∀ k ∈ f.details, k.depth + 2 ≤ maxDepth := by
  rintro _ ⟨⟩ _ ⟨⟩
  decide +kernel

theorem codecs_invert_reportedJob :
    Plan.decoder .refused loosePlan.toJson = some loosePlan ∧
      (read? loosePlan.toJson.write).bind (Plan.decoder .refused) = some loosePlan ∧
      Job.decoder .refused reportedJob.toJson = some reportedJob ∧
      (read? reportedJob.toJson.write).bind (Job.decoder .refused) = some reportedJob ∧
      Plan.decoder .lastWins loosePlan.toJson = some loosePlan ∧
      Job.decoder .lastWins reportedJob.toJson = some reportedJob ∧
      (read? loosePlan.toJson.write).bind (Plan.decoder .lastWins) = some loosePlan ∧
      (read? reportedJob.toJson.write).bind (Job.decoder .lastWins) = some reportedJob := by
  obtain ⟨hplan, hjob, hdocument, hagain, hplanText, hjobText, -⟩ :=
    codecs_invert .refused .lastWins
  have hloose : loosePlan.toJson.Exact := by decide +kernel
  have hreported : reportedJob.toJson.Exact := by decide +kernel
  obtain ⟨hp, hpText⟩ := hplan loosePlan allFinite_loosePlan
  obtain ⟨hj, hjText⟩ := hjob reportedJob writable_reportedJob
  have hjRead := (hjText hreported).2 shallow_reportedJob
  exact ⟨hp, hpText hloose, hj, hjRead,
    hdocument looseDocument loosePlan (decoder_looseDocument .refused),
    hagain _ _ hj readsBack_reportedJob, hplanText _ _ (hpText hloose) hloose,
    hjobText _ _ hjRead readsBack_reportedJob hreported⟩

/-- A plan with a track of which the speed is read as the next double above it. -/
def hastyPlan : Plan :=
  { loosePlan with
    audioTracks := loosePlan.audioTracks.map fun t =>
      { t with speed := .finite ⟨false, 5322435923256041, -52, by decide⟩ } }

/-- Arrays in each other. -/
def nested : Nat → Json
  | 0 => .array []
  | n + 1 => .array [nested n]

/-- A job whose report nests one array too deep. -/
def deepJob : Job :=
  { reportedJob with error := some ⟨.ffmpeg, "no frame", some (nested 125)⟩ }

theorem writable_deepJob : deepJob.Writable := by
  refine ⟨writable_reportedJob.numbers, ?_, readsBack_reportedJob⟩
  rintro _ ⟨⟩
  nofun

/-- A plan can hold a double that is not read back from its digits, and a job a report that nests
too deep to be read. -/
theorem not_codecs_invert_hastyPlan :
    (AllFinite hastyPlan.numbers ∧
      (read? hastyPlan.toJson.write).bind (Plan.decoder .refused) ≠ some hastyPlan) ∧
    (deepJob.Writable ∧
      (read? deepJob.toJson.write).bind (Job.decoder .refused) ≠ some deepJob) := by
  refine ⟨⟨by unfold AllFinite; decide +kernel, ?_⟩, writable_deepJob, fun hread => ?_⟩
  · rw [read?_write_of_depth_le (hastyPlan.depth_toJson_le.trans (by decide))]
    decide +kernel
  · have hexact : deepJob.toJson.Exact := by decide +kernel
    have hdepth := (Job.read?_write_iff writable_deepJob hexact .refused).1 hread _ rfl _ rfl
    revert hdepth
    decide +kernel

end RenderGateway
