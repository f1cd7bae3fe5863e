import RenderGateway.Client.Call
import RenderGateway.Proofs.Client.Replies
import RenderGateway.Proofs.Job.RoundTrip
import RenderGateway.Proofs.Server.Delivery
import RenderGateway.Proofs.Transform.RoundTrip

/-!
# Agreement of the client and the gateway

What the gateway answers is read by the client as what was meant: a job as the job, an error as its
fault with its status, and an error of another form as the fault that its status stands for. What
the client asks for is read by the gateway as what was meant, unless it is too large. The one
exception is a job that reports a failure with details so deep that its text is not read.
-/

namespace RenderGateway

open Json Json.Decoder

namespace Client

/-- What the client makes of a response whose body is a text. -/
def result? (d : Decoder α) (r : Response) : Option (Except ClientError α) :=
  (String.fromUTF8? r.body.bytes).map fun body =>
    Reply.decode ⟨r.status, (r.headers.text? "content-type").getD "", body⟩ d

theorem fromUTF8?_toUTF8 (s : String) : String.fromUTF8? s.toUTF8 = some s :=
  dif_pos s.isValidUTF8

variable {d : Decoder α}

theorem result?_congr {r s : Response} (hstatus : r.status = s.status) (hbody : r.body = s.body)
    (htype : r.headers.text? "content-type" = s.headers.text? "content-type") :
    result? d r = result? d s := by
  rw [result?, result?, hstatus, hbody, htype]

theorem result?_withCommonHeaders (g : Gateway) (m : Moment) (q : Request) (r : Response) :
    result? d (Api.withCommonHeaders g m q r) = result? d r := by
  refine result?_congr ?_ ?_ (Api.contentType_withCommonHeaders g m q r)
  · rw [Api.withCommonHeaders]
  · rw [Api.withCommonHeaders]

theorem contentType_ofJson (status : HttpStatus) (document : Json) :
    (Response.ofJson status document).headers.text? "content-type" = some "application/json" := by
  have htype : Headers.text? [("content-type", "application/json")] "content-type" =
      some "application/json" := rfl
  exact htype

/-- What is JSON is read as it was answered. -/
theorem result?_delivered (g : Gateway) (m : Moment) (q : Request) (status : HttpStatus)
    (document : Json) :
    result? d (Api.delivered g m q (.ofJson status document)) =
      result? d (.ofJson status document) := by
  have hjson : (Response.ofJson status document).isJson = true := by
    have hbeginning : Text.hasPrefix "application/json" "application/json" = true := rfl
    rw [Response.isJson, contentType_ofJson]
    exact hbeginning
  have hform : Api.inErrorForm (.ofJson status document) = .ofJson status document :=
    if_pos (by rw [hjson, Bool.or_true])
  rw [Api.delivered, hform, result?_withCommonHeaders]

theorem result?_ofJson (status : HttpStatus) (document : Json) :
    result? d (.ofJson status document) =
      some (Reply.decode ⟨status, "application/json", document.write⟩ d) := by
  have hbody : (Response.ofJson status document).body.bytes = document.write.toUTF8 := rfl
  rw [result?, hbody, fromUTF8?_toUTF8, Option.map_some, contentType_ofJson]
  rfl

theorem saysJson_json (status : HttpStatus) (body : String) :
    Reply.saysJson ⟨status, "application/json", body⟩ = true := by
  have hjson : Text.hasPrefix "application/json" (Text.lower "application/json") = true := rfl
  exact hjson

section Documents

variable {status : HttpStatus} {document : Json}

theorem result?_of_reportedFault? {f : Fault} (hread : read? document.write = some document)
    (h : Reply.reportedFault? document = some f) :
    result? d (.ofJson status document) =
      some (.error (.reported (UInt16.ofNat status.code) f)) := by
  rw [result?_ofJson, Reply.decode, saysJson_json]
  simp only [Bool.not_true, Bool.false_eq_true, if_false, hread, h]
  rfl

theorem result?_of_decoder {a : α} (hread : read? document.write = some document)
    (hnone : Reply.reportedFault? document = none) (hsuccess : status.isSuccess = true)
    (h : d .lastWins document = some a) : result? d (.ofJson status document) = some (.ok a) := by
  rw [result?_ofJson, Reply.decode, saysJson_json]
  simp only [Bool.not_true, Bool.false_eq_true, if_false, hread, hnone,
    hsuccess, if_true, h]

end Documents

/-- A report of a fault is read as the fault, whatever result was asked for. -/
theorem result?_ofFault {status : HttpStatus} {f : Fault} (hnull : f.details ≠ some .null)
    (hdetails : ∀ k ∈ f.details, k.depth + 2 ≤ maxDepth ∧ k.Exact) :
    result? d (.ofFault status f) = some (.error (.reported (UInt16.ofNat status.code) f)) := by
  have hshallow : (Json.object [("ok", .bool false), ("error", f.toJson)]).depth ≤ maxDepth := by
    refine depth_object_le_iff.2 (List.forall_mem_cons.2 ⟨Nat.zero_le _,
      List.forall_mem_singleton.2 (Fault.depth_toJson_le_iff.2 fun k hk => ?_)⟩)
    exact Nat.le_of_add_le_add_right (hdetails k hk).1
  have hexact : (Json.object [("ok", .bool false), ("error", f.toJson)]).Exact := by
    refine exact_object_iff.2 (List.forall_mem_cons.2 ⟨exact_bool false,
      List.forall_mem_singleton.2 (Fault.exact_toJson_iff.2 fun k hk => ?_)⟩)
    exact (hdetails k hk).2
  have hreported : Reply.reportedFault?
      (.object [("ok", .bool false), ("error", f.toJson)]) = some f :=
    (Fault.reads hnull).2 .lastWins
  rw [Response.ofFault, result?_of_reportedFault? (read?_write_iff.2 ⟨hshallow, hexact⟩) hreported]

/-- An error of another form is read as the fault that its status stands for. -/
theorem result?_inErrorForm {r : Response} (herror : r.status.isError = true)
    (hjson : r.isJson = false) :
    result? d (Api.inErrorForm r) = some (.error (.reported (UInt16.ofNat r.status.code)
      (.ofMessage (.ofStatus r.status) (Api.statusMessage r.status)))) := by
  have hform : ¬ (!r.status.isError || r.isJson) = true := by simp [herror, hjson]
  have htype : Text.lower "content-type" = "content-type" := rfl
  have hreport : result? d (.ofFault r.status
      (.ofMessage (.ofStatus r.status) (Api.statusMessage r.status))) =
        some (.error (.reported (UInt16.ofNat r.status.code)
          (.ofMessage (.ofStatus r.status) (Api.statusMessage r.status)))) :=
    result?_ofFault nofun nofun
  rw [Api.inErrorForm, if_neg hform, ← hreport]
  refine result?_congr rfl rfl ?_
  simp only [Headers.text?, Headers.get?, Response.ofFault, Response.ofJson, List.cons_append,
    List.find?_cons, htype, decide_true]

/-- No job is read whose fault has details that nest too deep. -/
theorem depth_details_le {r : Response} {j : Job}
    (h : result? Job.decoder r = some (.ok j)) :
    ∀ f ∈ j.error, ∀ k ∈ f.details, k.depth + 2 ≤ maxDepth := by
  obtain ⟨_, -, hdecode⟩ := Option.map_eq_some_iff.1 h
  cases Reply.decode_eq_iff.1 hdecode with
  | result carries silent status hj =>
    intro f hf k hk
    have hlt := Job.depth_details_lt hj f hf k hk
    have hdepth := depth_le_of_read? carries.read
    omega

end Client

namespace Api

variable {j : Job}

def jobSlots (j : Job) : List Slot := ("ok", some (.bool true)) :: j.slots

theorem jobBody_eq (j : Job) : jobBody j = .object (ofSlots (jobSlots j)) := by
  rw [jobBody, j.fields_eq, jobSlots, ofSlots_some]

theorem nodup_jobSlots (j : Job) : ((jobSlots j).map Prod.fst).Nodup := by
  have hnames : (jobSlots j).map Prod.fst = "ok" :: Job.fieldNames := rfl
  rw [hnames]
  simp [Job.fieldNames]

theorem depth_jobBody_le_maxDepth_iff :
    (jobBody j).depth ≤ maxDepth ↔ ∀ f ∈ j.error, ∀ k ∈ f.details, k.depth + 2 ≤ maxDepth := by
  have hmax : maxDepth = 126 + 1 := rfl
  rw [← Job.depth_toJson_le_maxDepth_iff, jobBody_eq, Job.toJson, j.fields_eq, hmax,
    depth_ofSlots_le_iff, depth_ofSlots_le_iff, jobSlots, List.forall_mem_cons]
  simp

theorem exact_jobBody_iff : (jobBody j).Exact ↔ j.toJson.Exact := by
  rw [jobBody_eq, Job.toJson, j.fields_eq, exact_ofSlots_iff, exact_ofSlots_iff, jobSlots,
    List.forall_mem_cons]
  simp

/-- A job that reports a failure is no report of a fault. -/
theorem reportedFault?_jobBody (j : Job) : Reply.reportedFault? (jobBody j) = none := by
  have hok : (jobBody j).field? "ok" = some (.bool true) := by
    rw [jobBody_eq]
    exact lookup_ofSlots (nodup_jobSlots j) List.mem_cons_self
  rw [Reply.reportedFault?, hok]

theorem result?_jobBody (h : j.Writable) (hexact : j.toJson.Exact)
    (hdetails : ∀ f ∈ j.error, ∀ k ∈ f.details, k.depth + 2 ≤ maxDepth) :
    Client.result? Job.decoder (.ofJson .ok (jobBody j)) = some (.ok j) := by
  have hdecoder : Job.decoder .lastWins (jobBody j) = some j := by
    rw [jobBody_eq]
    exact Job.decoder_ofSlots h (List.subset_cons_self _ _) (nodup_jobSlots j) .lastWins
  have hread : read? (jobBody j).write = some (jobBody j) :=
    read?_write_iff.2 ⟨depth_jobBody_le_maxDepth_iff.2 hdetails, exact_jobBody_iff.2 hexact⟩
  exact Client.result?_of_decoder hread (reportedFault?_jobBody j) rfl hdecoder

end Api

/-- Only issues of a plan are details of an error of the server. -/
theorem ServerError.details_fault (e : ServerError) :
    ∀ k ∈ e.fault.details, k ≠ .null ∧ k.depth ≤ 3 ∧ k.Exact := by
  intro k hk
  cases e with
  | refused refusal => cases refusal with
    | plan issues =>
      obtain rfl := Option.some.inj hk
      have hissues : (ofList Issue.toJson issues).depth ≤ 2 := depth_ofList_le fun _ _ => le_rfl
      have hexact : (ofList Issue.toJson issues).Exact := exact_ofList fun i _ =>
        exact_object_iff.2 (by simp)
      exact ⟨nofun, depth_object_le_iff.2 (List.forall_mem_singleton.2 hissues),
        exact_object_iff.2 (List.forall_mem_singleton.2 hexact)⟩
    | input | transition => cases hk
  | _ => cases hk

theorem ServerError.response_eq {production : Bool} {e : ServerError}
    (h : production = true → e.fault.code ≠ .internal) :
    e.response production = .ofFault e.status e.fault := by
  have hshown : shown production e.fault = e.fault := if_neg fun hmasked => h hmasked.1 hmasked.2
  rw [response, hshown, ite_self]

namespace Client

theorem result?_serverError {d : Decoder α} (e : ServerError) :
    result? d (.ofFault e.status e.fault) =
      some (.error (.reported (UInt16.ofNat e.status.code) e.fault)) := by
  refine result?_ofFault (fun hnull => ?_) fun k hk => ?_
  · exact (e.details_fault _ hnull).1 rfl
  · obtain ⟨-, hdepth, hexact⟩ := e.details_fault k hk
    have hmax : maxDepth = 127 := rfl
    exact ⟨by omega, hexact⟩

/-- A request of the client as it arrives at the gateway. -/
structure Arrives (sent : ClientRequest) (boundary : String) (q : Request) : Prop where
  contentType : q.headers.get? "content-type" = sent.payload.contentType? boundary
  body : q.body = sent.payload.bytes boundary

/-- A document that the client sends is read by the gateway, unless it is too large. -/
theorem jsonBody_eq {g : Gateway} {sent : ClientRequest} {boundary : String} {q : Request}
    {document : Json} {d : Decoder α} {a : α} (h : Arrives sent boundary q)
    (hpayload : sent.payload = .json document) (hdepth : document.depth ≤ maxDepth)
    (hexact : document.Exact) (hread : d .refused document = some a) :
    Api.jsonBody g q d =
      if Api.bodyLimit g.settings q.headers < q.body.size then
        .error (.tooLarge "Request body too large")
      else .ok a := by
  have htype : (q.headers.text? "content-type").bind MediaType.ofText? =
      MediaType.ofText? "application/json" := by
    have hchars : ("application/json".toList.all Headers.isTextChar) = true := rfl
    rw [Headers.text?, h.contentType, hpayload, Payload.contentType?, Option.filter_some, hchars,
      if_pos rfl, Option.bind_some]
  have hjson : (MediaType.ofText? "application/json").any MediaType.isJson = true := rfl
  have hbody : String.fromUTF8? q.body = some document.write := by
    rw [h.body, hpayload]
    exact fromUTF8?_toUTF8 _
  rw [Api.jsonBody, htype, hjson, hbody, Option.bind_some, readLeading?_write hdepth,
    reread_eq_some_iff.2 hexact]
  simp only [Option.map_some, hread]
  rfl

def executeSlots (source : String) (options : TransformOptions) : List Slot :=
  ("sourcePath", some (.text source)) :: options.slots

theorem executeBody_eq (source : String) (options : TransformOptions) :
    executeBody source options = .object (ofSlots (executeSlots source options)) := by
  rw [executeBody, options.toJson_eq, fieldList, executeSlots, ofSlots_some]

theorem nodup_executeSlots (source : String) (options : TransformOptions) :
    ((executeSlots source options).map Prod.fst).Nodup := by
  have hnames : (executeSlots source options).map Prod.fst =
      ["sourcePath", "trim", "speed", "resize", "filters", "audio", "format", "quality"] := rfl
  rw [hnames]
  simp

theorem decoder_executeBody {source : String} {options : TransformOptions}
    (h : AllFinite options.numbers) (r : Repeats) :
    ExecuteRequest.decoder r (executeBody source options) = some ⟨source, options⟩ := by
  have hnodup := nodup_executeSlots source options
  have hsource : lookup "sourcePath" (ofSlots (executeSlots source options)) =
      some (.text source) :=
    lookup_ofSlots hnodup List.mem_cons_self
  have hoptions : TransformOptions.decoder r (.object (ofSlots (executeSlots source options))) =
      some options :=
    TransformOptions.decoder_ofSlots h (List.subset_cons_self _ _) hnodup r
  rw [executeBody_eq, ExecuteRequest.decoder]
  simp only [repeatsName_ofSlots hnodup, hsource, hoptions]
  rfl

theorem depth_executeBody_le (source : String) (options : TransformOptions) :
    (executeBody source options).depth ≤ 3 := by
  rw [executeBody_eq]
  apply depth_ofSlots_le_iff.2
  exact List.forall_mem_cons.2 ⟨by simp, options.depth_slots_le⟩

theorem exact_executeBody {options : TransformOptions} (h : options.toJson.Exact)
    (source : String) : (executeBody source options).Exact := by
  rw [options.toJson_eq, exact_ofSlots_iff] at h
  rw [executeBody_eq, exact_ofSlots_iff]
  exact List.forall_mem_cons.2 ⟨by simp, h⟩

def executePlanSlots (r : ExecutePlanRequest) : List Slot :=
  [("sourceVideoUrl", r.source.map .text), ("plan", some r.plan.toJson),
   ("outputName", r.outputName.map .text)]

theorem executePlanBody_eq (r : ExecutePlanRequest) :
    executePlanBody r.plan r.source r.outputName = .object (ofSlots (executePlanSlots r)) := by
  simp [executePlanBody, executePlanSlots]

theorem reads_executePlanBody {r : ExecutePlanRequest} (h : AllFinite r.plan.numbers) :
    Reads ExecutePlanRequest.decoder
      (fun r => executePlanBody r.plan r.source r.outputName) r := by
  refine reads_record (executePlanBody_eq r) rfl (by simp) fun record _ hslots => ?_
  simp only [executePlanSlots, List.forall_mem_cons] at hslots
  obtain ⟨hsource, hplan, houtputName, -⟩ := hslots
  rw [Record.optional_eq (fun _ _ => reads_string _) hsource,
    Record.required_eq (Plan.reads h) hplan,
    Record.optional_eq (fun _ _ => reads_string _) houtputName]
  rfl

theorem depth_executePlanBody_le (r : ExecutePlanRequest) :
    (executePlanBody r.plan r.source r.outputName).depth ≤ 6 := by
  rw [executePlanBody_eq]
  apply depth_ofSlots_le_iff.2
  simpa [executePlanSlots] using r.plan.depth_toJson_le

theorem exact_executePlanBody {r : ExecutePlanRequest} (h : r.plan.toJson.Exact) :
    (executePlanBody r.plan r.source r.outputName).Exact := by
  rw [executePlanBody_eq, exact_ofSlots_iff]
  simpa [executePlanSlots] using h

end Client

open Client in
/-- The client and the gateway mean the same by what they send each other. A job is read as itself
exactly if the details of its fault do not nest too deep; an error as its fault, unless that is
hidden; an error of another form as what its status stands for; and a request for a transform or
for a plan as itself, unless it is too large. The doubles in what is sent are taken to be finite and
to be read back from their digits. -/
theorem wire_agrees (g : Gateway) (m : Moment) (q : Request) :
    (∀ (id : String) (j : Job), g.queue.jobs.find? id = some j → j.Writable → j.toJson.Exact →
      ∃ r, Api.job g id = .ok r ∧
        (result? Job.decoder (Api.delivered g m q r) = some (.ok j) ↔
          ∀ f ∈ j.error, ∀ k ∈ f.details, k.depth + 2 ≤ maxDepth)) ∧
    (∀ (α : Type) (d : Decoder α) (e : ServerError) (production : Bool),
      (production = true → e.fault.code ≠ .internal) →
      ∃ status : UInt16, status.toNat = e.status.code ∧
        result? d (Api.delivered g m q (e.response production)) =
          some (.error (.reported status e.fault))) ∧
    (∀ (α : Type) (d : Decoder α) (r : Response), r.status.isError = true → r.isJson = false →
      ∃ status : UInt16, status.toNat = r.status.code ∧
        result? d (Api.delivered g m q r) = some (.error (.reported status
          (.ofMessage (.ofStatus r.status) (Api.statusMessage r.status))))) ∧
    (∀ (s : ClientSettings) (boundary source : String) (options : TransformOptions),
      AllFinite options.numbers → options.toJson.Exact →
      Arrives (executeRequest s source options) boundary q →
      Api.jsonBody g q ExecuteRequest.decoder =
        if Api.bodyLimit g.settings q.headers < q.body.size then
          .error (.tooLarge "Request body too large")
        else .ok ⟨source, options⟩) ∧
    ∀ (s : ClientSettings) (boundary : String) (p : Plan) (source outputName : Option String),
      AllFinite p.numbers → p.toJson.Exact →
      Arrives (executePlanRequest s p source outputName) boundary q →
      Api.jsonBody g q ExecutePlanRequest.decoder =
        if Api.bodyLimit g.settings q.headers < q.body.size then
          .error (.tooLarge "Request body too large")
        else .ok ⟨source, p, outputName⟩ := by
  have hstatus : ∀ s : HttpStatus, (UInt16.ofNat s.code).toNat = s.code := by
    intro s
    have hdigits := s.threeDigits
    have hsize : UInt16.size = 65536 := rfl
    exact UInt16.toNat_ofNat_of_lt' (by omega)
  refine ⟨fun id j hj hwritable hexact => ?_, fun α d e production hshown => ?_,
    fun α d r herror hjson => ?_, fun s boundary source options hfinite hexact harrives => ?_,
    fun s boundary p source outputName hfinite hexact harrives => ?_⟩
  · refine ⟨.ofJson .ok (Api.jobBody j), by rw [Api.job, hj], depth_details_le,
      fun hdetails => ?_⟩
    rw [result?_delivered]
    exact Api.result?_jobBody hwritable hexact hdetails
  · refine ⟨_, hstatus e.status, ?_⟩
    rw [ServerError.response_eq hshown, Response.ofFault, result?_delivered]
    exact result?_serverError e
  · refine ⟨_, hstatus r.status, ?_⟩
    rw [Api.delivered, result?_withCommonHeaders, result?_inErrorForm herror hjson]
  · exact jsonBody_eq harrives rfl ((depth_executeBody_le source options).trans (by decide))
      (exact_executeBody hexact source) (decoder_executeBody hfinite .refused)
  · exact jsonBody_eq harrives rfl
      ((depth_executePlanBody_le ⟨source, p, outputName⟩).trans (by decide))
      (exact_executePlanBody (r := ⟨source, p, outputName⟩) hexact)
      ((reads_executePlanBody (r := ⟨source, p, outputName⟩) hfinite).2 .refused)

section Samples

open Client

/-- A gateway that knows one job. -/
def knowing (j : Job) (maxBodySize : UInt64) : Gateway :=
  { Gateway.start { ServerSettings.default with maxBodySize } .default .unavailable false .empty
      .empty 10 with
    queue := { Queue.empty 10 with jobs := [(j.id, j)] } }

def quietMoment : Moment := ⟨⟨20000, 0, 0⟩, 0, fun _ => "", "", none, fun _ => false, 0⟩

/-- A request of the client with JSON in its body, as it arrives. -/
def arrival (sent : ClientRequest) : Request :=
  ⟨sent.method, sent.url, [("content-type", "application/json")], sent.payload.bytes ""⟩

theorem arrives_arrival {sent : ClientRequest} {document : Json}
    (h : sent.payload = .json document) : Arrives sent "" (arrival sent) := by
  have htype : Headers.get? [("content-type", "application/json")] "content-type" =
      some "application/json" := by
    decide +kernel
  exact ⟨by rw [h]; exact htype, rfl⟩

def muted : TransformOptions :=
  ⟨none, some 2, none, [], some ⟨true, none, none, none⟩, none, none⟩

theorem allFinite_muted : AllFinite muted.numbers := by
  unfold AllFinite
  decide +kernel

def silentPlan : Plan := { loosePlan with audioTracks := [] }

theorem exact_muted : muted.toJson.Exact := by
  decide +kernel

theorem wire_agrees_reportedJob :
    (∃ r, Api.job (knowing reportedJob 1000) "j" = .ok r ∧
      result? Job.decoder (Api.delivered (knowing reportedJob 1000) quietMoment
        (arrival (jobRequest .default "j")) r) = some (.ok reportedJob)) ∧
    (∃ status : UInt16, status.toNat = 400 ∧
      result? AcceptedJob.decoder (Api.delivered (knowing reportedJob 1000) quietMoment
        (arrival (executeRequest .default "a.mp4" muted))
        ((ServerError.refused (.plan [⟨"timeline", "is empty"⟩])).response true)) =
          some (.error (.reported status (Refusal.plan [⟨"timeline", "is empty"⟩]).fault))) ∧
    (∃ status : UInt16, status.toNat = 405 ∧
      result? Job.decoder (Api.delivered (knowing reportedJob 1000) quietMoment
        (arrival (jobRequest .default "j")) ⟨.methodNotAllowed, [("allow", "GET")], .empty⟩) =
          some (.error (.reported status (.ofMessage .http "Method not allowed")))) ∧
    Api.jsonBody (knowing reportedJob 1000) (arrival (executeRequest .default "a.mp4" muted))
      ExecuteRequest.decoder = .ok ⟨"a.mp4", muted⟩ ∧
    Api.jsonBody (knowing reportedJob 1000)
      (arrival (executePlanRequest .default silentPlan none (some "out")))
      ExecutePlanRequest.decoder = .ok ⟨none, silentPlan, some "out"⟩ := by
  obtain ⟨hjob, -, hform, -⟩ := wire_agrees (knowing reportedJob 1000) quietMoment
    (arrival (jobRequest .default "j"))
  obtain ⟨-, herror, -, hexecute, -⟩ := wire_agrees (knowing reportedJob 1000) quietMoment
    (arrival (executeRequest .default "a.mp4" muted))
  obtain ⟨-, -, -, -, hplan⟩ := wire_agrees (knowing reportedJob 1000) quietMoment
    (arrival (executePlanRequest .default silentPlan none (some "out")))
  refine ⟨?_, ?_, ?_, ?_, ?_⟩
  · obtain ⟨r, hr, hread⟩ := hjob "j" reportedJob rfl writable_reportedJob (by decide +kernel)
    refine ⟨r, hr, hread.2 ?_⟩
    rintro _ ⟨⟩ _ ⟨⟩
    decide +kernel
  · exact herror _ AcceptedJob.decoder (.refused (.plan [⟨"timeline", "is empty"⟩])) true nofun
  · exact hform _ Job.decoder ⟨.methodNotAllowed, [("allow", "GET")], .empty⟩ rfl
      (by decide +kernel)
  · rw [hexecute .default "" "a.mp4" muted allFinite_muted exact_muted (arrives_arrival rfl)]
    exact if_neg (by decide +kernel)
  · rw [hplan .default "" silentPlan none (some "out") (List.forall_mem_nil _) (by decide +kernel)
      (arrives_arrival rfl)]
    exact if_neg (by decide +kernel)

/-- A report can nest too deep for its job to be read, and a source can be too long to be asked
for. -/
theorem not_wire_agrees_deepJob :
    (deepJob.Writable ∧ deepJob.toJson.Exact ∧ ∃ r, Api.job (knowing deepJob 16) "j" = .ok r ∧
      result? Job.decoder (Api.delivered (knowing deepJob 16) quietMoment
        (arrival (jobRequest .default "j")) r) ≠ some (.ok deepJob)) ∧
    AllFinite muted.numbers ∧ muted.toJson.Exact ∧
    Arrives (executeRequest .default "a.mp4" muted) ""
      (arrival (executeRequest .default "a.mp4" muted)) ∧
    Api.jsonBody (knowing deepJob 16) (arrival (executeRequest .default "a.mp4" muted))
      ExecuteRequest.decoder = .error (.tooLarge "Request body too large") := by
  have harrives : Arrives (executeRequest .default "a.mp4" muted) ""
      (arrival (executeRequest .default "a.mp4" muted)) := arrives_arrival rfl
  refine ⟨⟨writable_deepJob, by decide +kernel, _, rfl, fun hread => ?_⟩, allFinite_muted,
    exact_muted, harrives, ?_⟩
  · have hdepth := depth_details_le hread _ rfl _ rfl
    revert hdepth
    decide +kernel
  · rw [jsonBody_eq harrives rfl ((depth_executeBody_le "a.mp4" muted).trans (by decide))
      (exact_executeBody exact_muted "a.mp4") (decoder_executeBody allFinite_muted .refused)]
    exact if_pos (by decide +kernel)

end Samples

end RenderGateway
