import RenderGateway.Fault
import RenderGateway.Job.Status
import RenderGateway.Plan.Check

/-!
# Refusals

Why the gateway's model of plans and jobs turns something down.
-/

namespace RenderGateway

inductive Refusal
  | input (text : String)
  | plan (issues : List Issue)
  | transition (source target : JobStatus)
deriving DecidableEq, Repr

namespace Refusal

def code : Refusal → FaultCode
  | input _ => .input
  | plan _ => .plan
  | transition _ _ => .internal

def message : Refusal → String
  | input text => s!"Invalid request: {text}"
  | plan issues => s!"Invalid plan: {issues.length} issue(s)"
  | transition source target => s!"Illegal job transition {source.name} -> {target.name}"

/-- The first issue in one line. -/
def planSummary (issues : List Issue) : String :=
  match issues with
  | [] => ""
  | i :: _ => s!"{i.path}: {i.message}"

def fault : Refusal → Fault
  | plan issues =>
    (Fault.ofMessage .plan s!"Execution plan is not renderable ({planSummary issues})").withDetails
      (.object [("issues", Json.ofList Issue.toJson issues)])
  | r => .ofMessage r.code r.message

instance : Reported Refusal := ⟨message, fault⟩

end Refusal

end RenderGateway
