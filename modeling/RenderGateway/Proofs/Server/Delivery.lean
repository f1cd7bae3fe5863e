import RenderGateway.Server.Respond

/-!
# Delivery of responses

What happens to a response on its way out: an error of another form gets the form that all errors
have, and headers are added to every response. Neither changes the media type of what is JSON.
-/

namespace RenderGateway

namespace Headers

variable {hs : Headers} {name : String}

theorem get?_append_of {others : Headers} (h : ∀ field ∈ others, Text.lower field.1 ≠ name) :
    get? (hs ++ others) name = hs.get? name := by
  have hnone : others.find? (fun field => Text.lower field.1 = name) = none := by
    simpa using h
  rw [get?, List.find?_append, hnone, Option.or_none]
  rfl

theorem get?_set {key : String} (h : Text.lower key ≠ name) (value : String) :
    (hs.set key value).get? name = hs.get? name := by
  rw [set, get?_append_of (by simpa using h), get?, List.find?_filter]
  have hkeep : ∀ field : String × String,
      (decide (field.1 ≠ key) = true ∧ decide (Text.lower field.1 = name) = true) ↔
        Text.lower field.1 = name := by
    intro field
    simp only [decide_eq_true_eq, and_iff_right_iff_imp]
    rintro hname rfl
    exact h hname
  simp only [hkeep]
  rfl

theorem get?_setDefault {key : String} (h : Text.lower key ≠ name) (value : String) :
    (hs.setDefault key value).get? name = hs.get? name := by
  unfold setDefault
  split
  · rfl
  · exact get?_append_of (by simpa using h)

theorem get?_foldl_set {others : Headers} (h : ∀ field ∈ others, Text.lower field.1 ≠ name) :
    (others.foldl (fun hs field => hs.set field.1 field.2) hs).get? name = hs.get? name := by
  induction others generalizing hs with
  | nil => rfl
  | cons field others ih =>
    obtain ⟨hfield, hothers⟩ := List.forall_mem_cons.1 h
    rw [List.foldl_cons, ih hothers, get?_set hfield]

end Headers

theorem CrossOrigin.headers_ne (c : CrossOrigin) (request : Headers) :
    ∀ field ∈ c.headers request, Text.lower field.1 ≠ "content-type" := by
  have hvary : Text.lower varying.1 ≠ "content-type" := by decide
  have horigin : Text.lower "access-control-allow-origin" ≠ "content-type" := by decide
  have hcredentials : Text.lower "access-control-allow-credentials" ≠ "content-type" := by decide
  have hexpose : Text.lower "access-control-expose-headers" ≠ "content-type" := by decide
  have horigins : ∀ field ∈ c.originHeaders request, Text.lower field.1 ≠ "content-type" := by
    cases c with
    | anyone => exact List.forall_mem_singleton.2 horigin
    | listed origins =>
      refine List.forall_mem_append.2 ⟨fun field hfield => ?_,
        List.forall_mem_singleton.2 hcredentials⟩
      obtain ⟨origin, -, rfl⟩ := List.mem_map.1 hfield
      exact horigin
  exact List.forall_mem_cons.2
    ⟨hvary, List.forall_mem_append.2 ⟨horigins, List.forall_mem_singleton.2 hexpose⟩⟩

namespace Api

/-- The headers that every response gets leave its media type as it is. -/
theorem contentType_withCommonHeaders (g : Gateway) (m : Moment) (q : Request) (r : Response) :
    (withCommonHeaders g m q r).headers.text? "content-type" =
      r.headers.text? "content-type" := by
  have hsecurity : ∀ field ∈ securityHeaders, Text.lower field.1 ≠ "content-type" := by
    decide
  have hid : Text.lower "x-request-id" ≠ "content-type" := by decide
  have hlength : Text.lower "content-length" ≠ "content-type" := by decide
  simp only [withCommonHeaders, Headers.text?,
    Headers.get?_append_of (CrossOrigin.headers_ne _ _), Headers.get?_set hid,
    Headers.get?_foldl_set hsecurity, Headers.get?_setDefault hlength]

/-- A response as it leaves the gateway. -/
def delivered (g : Gateway) (m : Moment) (q : Request) (r : Response) : Response :=
  withCommonHeaders g m q (inErrorForm r)

/-- The response to a request before it is delivered, and the gateway then. -/
def answered (g : Gateway) (m : Moment) (q : Request) : Response × Gateway :=
  if announcesTooMuch g q then (⟨.payloadTooLarge, [], .empty⟩, g) else routed g m q

/-- All that is answered is delivered, but for what browsers ask before they call. -/
theorem respond_eq_delivered (g : Gateway) (m : Moment) {q : Request} (h : q.method ≠ "OPTIONS") :
    (respond g m q).1 = delivered (answered g m q).2 m q (answered g m q).1 := by
  rw [respond, if_neg h]
  rfl

end Api

end RenderGateway
