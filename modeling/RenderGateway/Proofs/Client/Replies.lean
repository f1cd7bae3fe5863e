import RenderGateway.Client.Reply

/-!
# What a reply is taken for

A reply is tested in a fixed order: its content type, its body, the fault in it, its status and its
shape. `Decodes` is the table of what comes of it, one row for each test that it fails and one for
the result. A document that says that it is not ok reports a fault only if it has one that reads;
without it such a document is a result like any other.
-/

namespace RenderGateway.Reply

/-- The content type begins with that of JSON, in letters of any case. -/
def IsJson (r : Reply) : Prop :=
  "application/json".toList <+: (Text.lower r.contentType).toList

/-- The reply says that it is JSON, and its body is this document. -/
structure Carries (r : Reply) (document : Json) : Prop where
  isJson : r.IsJson
  read : Json.read? r.body = some document

/-- The document says that it is not ok. -/
def Denies (document : Json) : Prop := document.field? "ok" = some (.bool false)

theorem denies_iff {document : Json} :
    (document.field? "ok").bind (Json.Decoder.boolean .lastWins) = some false ↔
      Denies document := by
  rw [Option.bind_eq_some_iff]
  constructor
  · rintro ⟨ok, hok, hfalse⟩
    cases ok with
    | bool b =>
      cases hfalse
      exact hok
    | null | integer | number | text | array | object => cases hfalse
  · exact fun hok => ⟨_, hok, rfl⟩

instance : DecidablePred Denies := fun _ => decidable_of_iff _ denies_iff

/-- The document says that it is not ok, and why. -/
structure Reports (document : Json) (f : Fault) : Prop where
  denies : Denies document
  error : ∃ e, document.field? "error" = some e ∧ Fault.decoder .lastWins e = some f

/-- What a document has in the place of an error is none. -/
def Faultless (document : Json) : Prop :=
  ∀ e, document.field? "error" = some e → Fault.decoder .lastWins e = none

variable {α : Type}

/-- What a reply is taken for. -/
inductive Decodes (r : Reply) (d : Json.Decoder α) : Except ClientError α → Prop
  | notJson (foreign : ¬ r.IsJson) :
      Decodes r d
        (.error (.notJson r.statusCode r.contentType (ClientError.excerpt r.body)))
  | unreadable (isJson : r.IsJson) (unread : Json.read? r.body = none) :
      Decodes r d (.error (.invalidJson r.statusCode "not a JSON document"))
  | reported {document : Json} {f : Fault} (carries : r.Carries document)
      (reports : Reports document f) : Decodes r d (.error (.reported r.statusCode f))
  | unsuccessful {document : Json} (carries : r.Carries document)
      (silent : ∀ f, ¬ Reports document f) (status : r.status.isSuccess = false) :
      Decodes r d (.error (.http (some r.statusCode)
        s!"Gateway returned {r.status.text} without an error envelope"))
  | shapeless {document : Json} (carries : r.Carries document)
      (silent : ∀ f, ¬ Reports document f) (status : r.status.isSuccess = true)
      (shape : d .lastWins document = none) :
      Decodes r d (.error (.invalidJson r.statusCode "not of the expected shape"))
  | result {document : Json} {a : α} (carries : r.Carries document)
      (silent : ∀ f, ¬ Reports document f) (status : r.status.isSuccess = true)
      (shape : d .lastWins document = some a) : Decodes r d (.ok a)

variable {r : Reply} {d : Json.Decoder α} {document : Json} {f : Fault}

theorem saysJson_iff : r.saysJson = true ↔ r.IsJson := List.isPrefixOf_iff_prefix

theorem reportedFault?_eq_some_iff : reportedFault? document = some f ↔ Reports document f := by
  unfold reportedFault?
  split
  · next hok =>
    rw [Option.bind_eq_some_iff]
    exact ⟨fun h => ⟨hok, h⟩, fun h => h.error⟩
  · next hok => exact iff_of_false nofun fun h => hok h.denies

theorem reportedFault?_eq_none_iff :
    reportedFault? document = none ↔ ∀ f, ¬ Reports document f := by
  simp only [Option.eq_none_iff_forall_ne_some, ← reportedFault?_eq_some_iff, ne_eq]

/-- Without a fault a document either does not say that it is not ok, or it has no error that
reads. -/
theorem silent_iff : (∀ f, ¬ Reports document f) ↔ (Denies document → Faultless document) := by
  constructor
  · intro h hdenies e he
    rw [Option.eq_none_iff_forall_ne_some]
    exact fun f hf => h f ⟨hdenies, e, he, hf⟩
  · rintro h f ⟨hdenies, e, he, hf⟩
    cases (h hdenies e he).symm.trans hf

/-! ### The table -/

theorem decodes_decode (r : Reply) (d : Json.Decoder α) : Decodes r d (r.decode d) := by
  unfold decode
  by_cases hjson : r.saysJson = true
  · rw [if_neg (by simp [hjson])]
    have isJson := saysJson_iff.1 hjson
    cases hread : Json.read? r.body with
    | none => exact .unreadable isJson hread
    | some document =>
      have carries : r.Carries document := ⟨isJson, hread⟩
      dsimp only
      cases hfault : reportedFault? document with
      | some f => exact .reported carries (reportedFault?_eq_some_iff.1 hfault)
      | none =>
        have silent := reportedFault?_eq_none_iff.1 hfault
        dsimp only
        split
        · next status =>
          cases hshape : d .lastWins document with
          | none => exact .shapeless carries silent status hshape
          | some a => exact .result carries silent status hshape
        · next status => exact .unsuccessful carries silent (by simpa using status)
  · rw [if_pos (by simpa using hjson)]
    exact .notJson fun isJson => hjson (saysJson_iff.2 isJson)

theorem Carries.saysJson (h : r.Carries document) : r.saysJson = true := saysJson_iff.2 h.isJson

/-- The rows of the table exclude one another. -/
theorem Decodes.eq_decode {x : Except ClientError α} (h : Decodes r d x) : r.decode d = x := by
  cases h with
  | notJson foreign =>
    have hjson : r.saysJson = false :=
      Bool.eq_false_iff.2 fun h => foreign (saysJson_iff.1 h)
    simp [decode, hjson]
  | unreadable isJson unread =>
    simp [decode, saysJson_iff.2 isJson, unread]
  | reported carries reports =>
    simp [decode, carries.saysJson, carries.read, reportedFault?_eq_some_iff.2 reports]
  | unsuccessful carries silent status =>
    simp [decode, carries.saysJson, carries.read, reportedFault?_eq_none_iff.2 silent, status]
  | shapeless carries silent status shape =>
    simp [decode, carries.saysJson, carries.read, reportedFault?_eq_none_iff.2 silent, status,
      shape]
  | result carries silent status shape =>
    simp [decode, carries.saysJson, carries.read, reportedFault?_eq_none_iff.2 silent, status,
      shape]

theorem decode_eq_iff {x : Except ClientError α} : r.decode d = x ↔ Decodes r d x :=
  ⟨fun h => h ▸ decodes_decode r d, Decodes.eq_decode⟩

/-- What a reply is taken for, by what is in it. It is a result exactly if it is JSON of the
expected shape with a status of success and reports no fault, and a fault is reported exactly if a
document that is not ok has an error that reads, whatever the status. In every other case the reply
is one of three errors. So a document that is not ok is a result after all exactly if it has no
error that reads but the expected shape, with a status of success. -/
theorem decodes_reply (r : Reply) (d : Json.Decoder α) :
    (∀ a, r.decode d = .ok a ↔ r.status.isSuccess = true ∧ ∃ document, r.Carries document ∧
      (Denies document → Faultless document) ∧ d .lastWins document = some a) ∧
    (∀ status f, r.decode d = .error (.reported status f) ↔
      status = r.statusCode ∧ ∃ document, r.Carries document ∧ Reports document f) ∧
    ((∃ status contentType excerpt, r.decode d = .error (.notJson status contentType excerpt)) ↔
      ¬ r.IsJson) ∧
    ((∃ status reason, r.decode d = .error (.invalidJson status reason)) ↔
      r.IsJson ∧ (Json.read? r.body = none ∨ r.status.isSuccess = true ∧
        ∃ document, r.Carries document ∧ (Denies document → Faultless document) ∧
          d .lastWins document = none)) ∧
    ((∃ status reason, r.decode d = .error (.http status reason)) ↔
      r.status.isSuccess = false ∧ ∃ document, r.Carries document ∧
        (Denies document → Faultless document)) ∧
    Decodes r d (r.decode d) := by
  simp only [decode_eq_iff, ← silent_iff]
  refine ⟨fun a => ⟨fun h => ?_, ?_⟩, fun status f => ⟨fun h => ?_, ?_⟩, ⟨?_, fun h => ?_⟩,
    ⟨?_, ?_⟩, ⟨?_, ?_⟩, decodes_decode r d⟩
  · cases h with
    | result carries silent status shape => exact ⟨status, _, carries, silent, shape⟩
  · rintro ⟨status, document, carries, silent, shape⟩
    exact .result carries silent status shape
  · cases h with
    | reported carries reports => exact ⟨rfl, _, carries, reports⟩
  · rintro ⟨rfl, document, carries, reports⟩
    exact .reported carries reports
  · rintro ⟨status, contentType, excerpt, h⟩
    cases h with
    | notJson foreign => exact foreign
  · exact ⟨_, _, _, .notJson h⟩
  · rintro ⟨status, reason, h⟩
    cases h with
    | unreadable isJson unread => exact ⟨isJson, .inl unread⟩
    | shapeless carries silent status shape =>
      exact ⟨carries.isJson, .inr ⟨status, _, carries, silent, shape⟩⟩
  · rintro ⟨isJson, unread | ⟨status, document, carries, silent, shape⟩⟩
    · exact ⟨_, _, .unreadable isJson unread⟩
    · exact ⟨_, _, .shapeless carries silent status shape⟩
  · rintro ⟨status, reason, h⟩
    cases h with
    | unsuccessful carries silent status => exact ⟨status, _, carries, silent⟩
  · rintro ⟨status, document, carries, silent⟩
    exact ⟨_, _, .unsuccessful carries silent status⟩

/-- A gateway that refuses a job and says why in words alone. -/
def deniedJob : Reply where
  status := .ok
  contentType := "application/json"
  body := "\x7b\"ok\":false,\"error\":\"queue is full\",\"jobId\":\"j1\",\"status\":\"queued\"," ++
    "\"queuePosition\":0,\"statusUrl\":\"/api/jobs/j1\"\x7d"

/-- The refusal is taken for a job. -/
theorem decode_deniedJob :
    (∃ document, deniedJob.Carries document ∧ Denies document) ∧
      ∃ job : AcceptedJob, deniedJob.decode AcceptedJob.decoder = .ok job ∧ job.id = "j1" := by
  have hdenied : ∃ document ∈ Json.read? deniedJob.body, Denies document := by decide +kernel
  have hjob : (deniedJob.decode AcceptedJob.decoder).toOption.map AcceptedJob.id = some "j1" := by
    decide +kernel
  obtain ⟨document, hread, hok⟩ := hdenied
  refine ⟨⟨document, ⟨⟨[], rfl⟩, hread⟩, hok⟩, ?_⟩
  cases hdecode : deniedJob.decode AcceptedJob.decoder with
  | error e =>
    rw [hdecode] at hjob
    cases hjob
  | ok job =>
    rw [hdecode] at hjob
    exact ⟨job, rfl, Option.some.inj hjob⟩

end RenderGateway.Reply
