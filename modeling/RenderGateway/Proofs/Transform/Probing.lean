import RenderGateway.Proofs.Graph.Mirrors
import RenderGateway.Proofs.Transform.Planned

/-!
# Plans that do not depend on a probe

What a probe tells of a source is written into the plan, but neither the command of a plan nor the
summary of its check is made of it: both are those of the plan without this knowledge. A request
that sets the end of its window and its size and plays no sound leaves nothing open. If it can be
planned at all, its plan is, but for this knowledge, the one that is made without a probe.
-/

namespace RenderGateway

/-- The source, of which no more is known than its file. -/
def Source.bare (s : Source) : Source := { s with width := none, height := none, duration := none }

/-- The segment of a source of which nothing is known. -/
def Segment.bare (s : Segment) : Segment := { s with sourceDuration := none }

namespace Plan

/-- The plan without its id and without what is known of its sources. -/
def bare (p : Plan) : Plan :=
  { p with id := "", sources := p.sources.map Source.bare, timeline := p.timeline.map Segment.bare }

theorem resolveAsset_bare (p : Plan) (own sourceId : Option String) :
    p.bare.resolveAsset own sourceId = p.resolveAsset own sourceId := by
  have hsource (id : String) : p.bare.source? id = (p.source? id).map Source.bare := List.find?_map
  have hurl (source : Option Source) : (source.map Source.bare).map Source.url =
      source.map Source.url := by cases source <;> rfl
  unfold resolveAsset
  simp only [hsource, hurl]
  rfl

end Plan

namespace Graph

/-- Nothing of the graph of a plan is made of what is known of its sources. -/
theorem mirrors_bare (p : Plan) : p.Mirrors id Segment.bare id p.bare where
  format := rfl
  texts := rfl
  timeline := rfl
  tracks := (List.map_id _).symm
  segment_eq _ := rfl
  track_eq _ := rfl
  segmentAsset s _ := by
    rw [Option.map_id_apply]
    exact p.resolveAsset_bare s.assetUrl s.sourceId
  audioAsset t _ := by
    rw [Option.map_id_apply]
    exact p.resolveAsset_bare t.assetUrl t.sourceId

theorem ofPlan_bare (p : Plan) : ofPlan p.bare = ofPlan p := by
  have hseparates : Separates id p.assetUrls := fun u _ v _ h => h
  have hredirect : redirect id = id := by
    funext g
    rw [redirect, List.map_id, id]
  rw [ofPlan_mirrors (mirrors_bare p) hseparates, hredirect]
  cases ofPlan p <;> rfl

end Graph

namespace Plan

/-- The command of a plan does not depend on what is known of its sources. -/
theorem compile_bare (p : Plan) (engine : Engine) (output : String) :
    p.bare.compile engine output = p.compile engine output := by
  have hcommand : p.bare.command output = p.command output := by
    rw [command, command, Graph.ofPlan_bare]
    rfl
  cases engine with
  | serverFfmpeg | planExport => exact hcommand
  | webcodecs | cloudinary => rfl

theorem timelineWarningsFrom_bare (earlier rest : List Segment) :
    timelineWarningsFrom (earlier.map Segment.bare) (rest.map Segment.bare) =
      timelineWarningsFrom earlier rest := by
  induction rest generalizing earlier with
  | nil => rfl
  | cons s rest ih =>
    have hwarnings : s.bare.warnings (earlier.map Segment.bare) = s.warnings earlier := by
      have hlast : (earlier.map Segment.bare).find? (fun t => t.isBase) =
          (earlier.find? fun t => t.isBase).map Segment.bare := List.find?_map
      unfold Segment.warnings
      rw [hlast]
      cases earlier.find? (fun t => t.isBase) <;> rfl
    rw [List.map_cons, timelineWarningsFrom, hwarnings, timelineWarningsFrom, ← ih]
    rfl

/-- Nor does the summary of its check. -/
theorem summarize_bare (p : Plan) : p.bare.summarize = p.summarize := by
  have hbase (s : Segment) : s.bare.isBase = s.isBase := rfl
  have hwarnings : p.bare.warnings = p.warnings := timelineWarningsFrom_bare [] p.timeline
  have htimeline : p.bare.timeline = p.timeline.map Segment.bare := rfl
  simp only [summarize, baseSegments, layerSegments, htimeline,
    (Graph.mirrors_bare p).outputDuration, hwarnings, List.length_map, List.filter_map,
    Function.comp_def, hbase]
  rfl

end Plan

namespace TransformOptions

variable {o : TransformOptions} {source : SourceInfo}

theorem needsProbe_eq_false_iff : o.needsProbe = false ↔
    (∃ stop, o.trimEnd = some stop) ∧ (∃ r, o.resize = some r) ∧
      (o.audio.getD .default).mute = true := by
  have hmuted : o.isMuted = (o.audio.getD .default).mute := by
    unfold isMuted
    cases o.audio <;> rfl
  unfold needsProbe
  rw [hmuted, Bool.or_eq_false_iff, Bool.or_eq_false_iff, Bool.not_eq_false', and_assoc,
    Option.isNone_eq_false_iff, Option.isNone_eq_false_iff, Option.isSome_iff_exists,
    Option.isSome_iff_exists]

/-- A window with an end of its own is the same without a probe. -/
theorem window_unknown {stop : Int64} (hstop : o.trimEnd = some stop) {w : Int64 × Int64}
    (h : o.window source = .ok w) : o.window .unknown = .ok w := by
  unfold window at h ⊢
  rw [hstop, Option.some_or] at h ⊢
  dsimp only at h ⊢
  split_ifs at h ⊢ with hempty
  cases hduration : source.duration with
  | none =>
    rw [hduration] at h
    exact h
  | some d =>
    rw [hduration] at h
    dsimp only at h
    split_ifs at h
    exact h

theorem frameSize_unknown {r : ResizeOptions} (hsize : o.resize = some r) :
    o.frameSize .unknown = o.frameSize source := by
  rw [frameSize, frameSize, hsize]

theorem audioTracks_muted (hmute : (o.audio.getD .default).mute = true) (start stop : Int64) :
    o.audioTracks source start stop = [] := by
  rw [audioTracks, hmute]
  rfl

/-- What is planned after a needless probe is planned without it, but for what it told. -/
theorem toPlan_unknown (hprobe : o.needsProbe = false) {id url : String} {p : Plan}
    (h : o.toPlan id url source = .ok p) (id' : String) :
    o.toPlan id' url .unknown = .ok { p.bare with id := id' } := by
  obtain ⟨⟨stop, hstop⟩, ⟨r, hsize⟩, hmute⟩ := needsProbe_eq_false_iff.1 hprobe
  unfold toPlan at h ⊢
  split at h
  · cases h
  · split_ifs at h ⊢
    obtain ⟨⟨first, last⟩, hwindow, h⟩ := bind_ok h
    obtain ⟨⟨width, height⟩, hframe, h⟩ := bind_ok h
    cases h
    rw [window_unknown hstop hwindow, frameSize_unknown hsize, hframe]
    dsimp only [bind_ok_eq, Plan.bare]
    rw [audioTracks_muted hmute, audioTracks_muted hmute]
    rfl

/-- A muted transform has no volume and no fades to be faulted for. -/
theorem check_of_toPlan_muted (hmute : (o.audio.getD .default).mute = true) {id url : String}
    {p : Plan} (h : o.toPlan id url source = .ok p) : p.check = .ok p.summarize := by
  obtain ⟨hplanned⟩ := toPlan_ok h
  have hsilent : ¬o.PlaysSound source := fun hsound => by
    rw [PlaysSound, hmute] at hsound
    cases hsound.1
  exact hplanned.check_eq_ok_iff.2
    ⟨⟨fun hsound => absurd hsound hsilent, fun hsound => absurd hsound hsilent⟩, rfl⟩

/-- A request that needs no probe has one outcome whatever is known of the source: each of its
plans passes the check with the same summary and has the same commands, and there is such a plan
without a probe. -/
theorem agree_of_toPlan (hprobe : o.needsProbe = false) {id id' url : String}
    {source source' : SourceInfo} {p q : Plan} (hp : o.toPlan id url source = .ok p)
    (hq : o.toPlan id' url source' = .ok q) :
    p.check = q.check ∧ (∃ summary, p.check = .ok summary) ∧
      (∀ engine output, p.compile engine output = q.compile engine output) ∧
      ∃ r, o.toPlan id url .unknown = .ok r := by
  obtain ⟨-, -, hmute⟩ := needsProbe_eq_false_iff.1 hprobe
  have hbare : p.bare = q.bare :=
    Except.ok.inj ((toPlan_unknown hprobe hp "").symm.trans (toPlan_unknown hprobe hq ""))
  have hcheck := check_of_toPlan_muted hmute hp
  refine ⟨?_, ⟨_, hcheck⟩, fun engine output => ?_, _, toPlan_unknown hprobe hp id⟩
  · rw [hcheck, check_of_toPlan_muted hmute hq, ← p.summarize_bare, hbare, q.summarize_bare]
  · rw [← p.compile_bare, hbare, q.compile_bare]

/-- A second of a file, of a size that is asked for and without sound. -/
def silentSecond : TransformOptions :=
  { default with
    trim := some ⟨500, some 1500⟩
    resize := some ⟨640, 360⟩
    audio := some { AudioOptions.default with mute := true } }

/-- What a probe of a long file with sound tells. -/
def probed : SourceInfo := ⟨some 60000, some 1920, some 1080, some true⟩

theorem agree_of_silentSecond : ∃ p q c, silentSecond.toPlan "t1" "a.mp4" probed = .ok p ∧
    silentSecond.toPlan "t2" "a.mp4" .unknown = .ok q ∧ p ≠ q ∧ p.check = q.check ∧
    p.compile .serverFfmpeg "out.mp4" = .ok c ∧ q.compile .serverFfmpeg "out.mp4" = .ok c := by
  have hp : silentSecond.toPlan "t1" "a.mp4" probed = .ok _ := rfl
  have hq : silentSecond.toPlan "t2" "a.mp4" .unknown = .ok _ := rfl
  obtain ⟨hcheck, -, hcompile, -⟩ := agree_of_toPlan (by decide) hp hq
  obtain ⟨hplanned⟩ := toPlan_ok hp
  obtain ⟨c, hc⟩ := (@Plan.exists_compile_iff _ _ "out.mp4" (.inl rfl)).2
    (hplanned.exists_graph_iff.2 (by decide +kernel))
  exact ⟨_, _, c, hp, hq, by decide +kernel, hcheck, hc, (hcompile _ _).symm.trans hc⟩

end TransformOptions

end RenderGateway
