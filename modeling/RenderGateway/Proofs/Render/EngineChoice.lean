import RenderGateway.Proofs.Engine.Routing
import RenderGateway.Proofs.Graph.Compositing
import RenderGateway.Proofs.Job.RoundTrip
import RenderGateway.Proofs.Plan.Localization
import RenderGateway.Proofs.Render.Resolution

/-!
# The engines of a worker

A worker routes over the engines of its settings that it can run itself. Each of these covers
whatever a plan requires, so none is rejected, and the settings and the encoder alone decide between
the two ways in which the work on a plan can go. `Work.performEither` is the work with these two
ways and no other: the worker does just this, so it never gives a plan up for its engine.
-/

namespace RenderGateway

namespace Engine

theorem ofName?_eq_some_iff {name : String} {e : Engine} :
    ofName? name = some e ↔ name = e.name := by
  constructor
  · intro h
    have hname : e.name = name := by simpa using List.find?_some h
    exact hname.symm
  · rintro rfl
    exact ofName?_name e

theorem toOption_ofText (s : String) : (ofText s).toOption = ofName? (Text.trim s) := by
  rw [ofText]
  cases ofName? (Text.trim s) <;> rfl

theorem hasServerExecutor_iff {e : Engine} :
    e.hasServerExecutor = true ↔ e = serverFfmpeg ∨ e = planExport := by
  simp [hasServerExecutor]

/-- An engine that the gateway runs itself covers whatever is required. -/
theorem covers_of_hasServerExecutor {e : Engine} (h : e.hasServerExecutor = true)
    (cs : List Capability) : e.Covers cs := by
  rcases hasServerExecutor_iff.1 h with rfl | rfl <;> exact fun _ _ => rfl

theorem rejections_of_exports {passed : List Engine} (h : ∀ x ∈ passed, x = planExport)
    (cs : List Capability) : rejections cs passed = [] := by
  rw [rejections, List.filter_eq_nil_iff.2 fun x hx => by simpa using h x hx]
  rfl

/-- Among engines that the gateway runs itself, the encoder is selected wherever it stands. -/
theorem route_of_executors {engines : List Engine}
    (h : ∀ e ∈ engines, e.hasServerExecutor = true) (cs : List Capability) :
    route (Capability.ordered cs) engines =
      ⟨if serverFfmpeg ∈ engines then serverFfmpeg else planExport, [], Capability.ordered cs⟩ := by
  have hexport {x : Engine} (hmem : x ∈ engines) (hx : x = planExport ∨ ¬ x.Covers cs) :
      x = planExport :=
    hx.resolve_right fun hnot => hnot (covers_of_hasServerExecutor (h x hmem) cs)
  have hrule := routes cs engines
  generalize route (Capability.ordered cs) engines = d at hrule ⊢
  cases hrule with
  | @selected before after e renders covers passed =>
    have hmem : e ∈ before ++ e :: after := List.mem_append_right _ List.mem_cons_self
    obtain rfl := (hasServerExecutor_iff.1 (h e hmem)).resolve_right renders
    rw [if_pos hmem, rejections_of_exports fun x hx =>
      hexport (List.mem_append_left _ hx) (passed x hx)]
  | exported passed =>
    have habsent : serverFfmpeg ∉ engines := fun hmem => nomatch hexport hmem (passed _ hmem)
    rw [if_neg habsent, rejections_of_exports fun x hx => hexport hx (passed x hx)]

end Engine

namespace RenderSettings

variable {s : RenderSettings} {encoderAvailable : Bool} {e : Engine}

theorem mem_parseEngines {list : String} :
    e ∈ parseEngines list ↔ ∃ entry ∈ Text.split ',' list, Text.trim entry = e.name := by
  rw [parseEngines, List.mem_filterMap]
  simp only [Engine.toOption_ofText, Engine.ofName?_eq_some_iff]

theorem mem_usableEngines : e ∈ s.usableEngines encoderAvailable ↔
    e ∈ s.engines ∧ e.hasServerExecutor = true ∧ (e = .serverFfmpeg → encoderAvailable = true) := by
  have hdistinct : s.usableEngines encoderAvailable = Plan.distinct (s.engines.filter fun e =>
      e.hasServerExecutor && (e ≠ .serverFfmpeg || encoderAvailable)) := rfl
  rw [hdistinct, Plan.mem_distinct, List.mem_filter]
  simp [imp_iff_not_or]

/-- The engine of a worker with these settings: the encoder if it may use one and has one. -/
def chosenEngine (s : RenderSettings) (encoderAvailable : Bool) : Engine :=
  if .serverFfmpeg ∈ s.engines ∧ encoderAvailable = true then .serverFfmpeg else .planExport

theorem chosenEngine_eq_serverFfmpeg_iff : s.chosenEngine encoderAvailable = .serverFfmpeg ↔
    .serverFfmpeg ∈ s.engines ∧ encoderAvailable = true := by
  unfold chosenEngine
  split
  · next h => exact iff_of_true rfl h
  · next h => exact iff_of_false nofun h

theorem chosenEngine_eq_planExport_iff : s.chosenEngine encoderAvailable = .planExport ↔
    ¬ (.serverFfmpeg ∈ s.engines ∧ encoderAvailable = true) := by
  unfold chosenEngine
  split
  · next h => exact iff_of_false nofun (not_not_intro h)
  · next h => exact iff_of_true rfl h

end RenderSettings

/-- The route of a plan over the engines that a worker can run. -/
theorem Plan.route_usableEngines (p : Plan) (s : RenderSettings) (encoderAvailable : Bool) :
    p.route (s.usableEngines encoderAvailable) =
      ⟨s.chosenEngine encoderAvailable, [], p.requiredCapabilities⟩ := by
  have hexecutors : ∀ e ∈ s.usableEngines encoderAvailable, e.hasServerExecutor = true :=
    fun e he => (RenderSettings.mem_usableEngines.1 he).2.1
  have hroute := Engine.route_of_executors hexecutors p.requiredCapabilities
  rw [Plan.ordered_requiredCapabilities] at hroute
  rw [Plan.route, hroute]
  simp only [RenderSettings.mem_usableEngines, RenderSettings.chosenEngine,
    Engine.hasServerExecutor_iff, true_or, true_and, forall_const]

namespace Workshop

/-- A worker as it is set up: it routes over the engines that its settings leave it. -/
def deployed (w : Workshop) (encoderAvailable : Bool) : Workshop :=
  { w with engines := w.settings.usableEngines encoderAvailable }

end Workshop

namespace Work

/-- The work on a plan that is rendered if there is an encoder to use, and handed back if there is
none. -/
def performEither (w : Workshop) (encoderAvailable : Bool) (p : Plan)
    (outputName : Option String) : Work JobOutcome := do
  let _ ← orAbort w .plan p.check fun issues => .refused (.plan issues)
  let d : Routing := ⟨w.settings.chosenEngine encoderAvailable, [], p.requiredCapabilities⟩
  note w (routedLine d)
  send w (.route d)
  let s ← get
  let name := OutputName.ofJob outputName s.job.id p.format.container
  if .serverFfmpeg ∈ w.settings.engines ∧ encoderAvailable = true then render w (w.prepared p) name
  else exportPlan w (w.prepared p) d name

theorem performRouted_chosenEngine (w : Workshop) (encoderAvailable : Bool) (p : Plan)
    (required : List Capability) (name : String) :
    performRouted w p ⟨w.settings.chosenEngine encoderAvailable, [], required⟩ name =
      if .serverFfmpeg ∈ w.settings.engines ∧ encoderAvailable = true then render w p name
      else exportPlan w p ⟨w.settings.chosenEngine encoderAvailable, [], required⟩ name := by
  split
  · next h => rw [performRouted, RenderSettings.chosenEngine_eq_serverFfmpeg_iff.2 h]
  · next h => rw [performRouted, RenderSettings.chosenEngine_eq_planExport_iff.2 h]

theorem perform_deployed (w : Workshop) (encoderAvailable : Bool) (p : Plan)
    (outputName : Option String) :
    perform (w.deployed encoderAvailable) p outputName =
      performEither (w.deployed encoderAvailable) encoderAvailable p outputName := by
  have hperform :=
    @perform_eq (w.deployed encoderAvailable) ⟨Job.queued "" p 0 default, p, outputName⟩
  have hroute : p.route (w.deployed encoderAvailable).engines =
      ⟨(w.deployed encoderAvailable).settings.chosenEngine encoderAvailable, [],
        p.requiredCapabilities⟩ := p.route_usableEngines w.settings encoderAvailable
  simp only [hroute, performRouted_chosenEngine] at hperform
  exact hperform

end Work

namespace Workshop

/-- The engine of a plan depends on the settings and the encoder alone: it is the encoder if the
list of engines names it, with blanks around the name or not, and the export of the plan in every
other case. Nothing is rejected, and the work has no third way to go. -/
theorem routes_deployed (w : Workshop) (encoderAvailable : Bool) (p : Plan) :
    p.route (w.deployed encoderAvailable).engines =
      ⟨w.settings.chosenEngine encoderAvailable, [], p.requiredCapabilities⟩ ∧
    (w.settings.chosenEngine encoderAvailable = .serverFfmpeg ↔
      .serverFfmpeg ∈ w.settings.engines ∧ encoderAvailable = true) ∧
    (w.settings.chosenEngine encoderAvailable = .planExport ↔
      ¬ (.serverFfmpeg ∈ w.settings.engines ∧ encoderAvailable = true)) ∧
    (∀ list e, e ∈ RenderSettings.parseEngines list ↔
      ∃ entry ∈ Text.split ',' list, Text.trim entry = e.name) ∧
    ∀ outputName, Work.perform (w.deployed encoderAvailable) p outputName =
      Work.performEither (w.deployed encoderAvailable) encoderAvailable p outputName :=
  ⟨p.route_usableEngines w.settings encoderAvailable,
    RenderSettings.chosenEngine_eq_serverFfmpeg_iff, RenderSettings.chosenEngine_eq_planExport_iff,
    fun _ _ => RenderSettings.mem_parseEngines,
    Work.perform_deployed w encoderAvailable p⟩

/-- A list of engines with an unknown one, a blank and one that runs elsewhere. -/
example : ({ RenderSettings.default with
    engines := RenderSettings.parseEngines "webcodecs, bogus, server_ffmpeg ," }).chosenEngine
      true = .serverFfmpeg := by decide +kernel

end Workshop

end RenderGateway
