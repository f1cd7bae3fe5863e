import RenderGateway.Command.Compile

/-!
# Reading the arguments of a command

The encoder reads its arguments from left to right: a switch stands alone,
every other option takes the next argument as its value, and what is left at
the end is the output. `options_invocation` reads the arguments of a rendering
back: its inputs, its graph, its two maps and the options of the encoding.
-/

namespace RenderGateway.Arguments

/-- The options without a value. -/
def switches : List String := ["-y", "-hide_banner", "-nostats"]

/-- The options that have a value, in order. -/
def options : List String → List (String × String)
  | key :: value :: rest =>
    if key ∈ switches then options (value :: rest) else (key, value) :: options rest
  | _ => []

/-- The values of an option. -/
def valuesOf (key : String) (args : List String) : List String :=
  ((options args).filter fun o => o.1 = key).map Prod.snd

/-- Options with their values as arguments. -/
def flatten (pairs : List (String × String)) : List String := pairs.flatMap fun o => [o.1, o.2]

theorem flatten_append (xs ys : List (String × String)) :
    flatten (xs ++ ys) = flatten xs ++ flatten ys := List.flatMap_append

theorem options_switch {key : String} (h : key ∈ switches) (rest : List String) :
    options (key :: rest) = options rest := by
  cases rest with
  | nil => rfl
  | cons value rest => rw [options, if_pos h]

theorem options_option {key : String} (h : key ∉ switches) (value : String) (rest : List String) :
    options (key :: value :: rest) = (key, value) :: options rest := by
  rw [options, if_neg h]

theorem options_flatten_append (pairs : List (String × String))
    (h : ∀ o ∈ pairs, o.1 ∉ switches) (rest : List String) :
    options (flatten pairs ++ rest) = pairs ++ options rest := by
  induction pairs with
  | nil => rfl
  | cons o pairs ih =>
    obtain ⟨ho, hpairs⟩ := List.forall_mem_cons.1 h
    change options (o.1 :: o.2 :: (flatten pairs ++ rest)) = _
    rw [options_option ho, ih hpairs]
    rfl

/-- The options of an encoding, with their values. -/
def encodingOptions (f : OutputFormat) (quality : Quality) : List (String × String) :=
  let e := Encoding.ofFormat f quality
  ("-c:v", e.codec) :: (e.preset.map fun preset => ("-preset", preset)).toList ++
  (match e.videoBitrate with
    | some bitrate => [("-b:v", bitrate)]
    | none =>
      ("-crf", toString e.rateFactor) ::
        if e.codec = Codec.vp9.encoder then [("-b:v", "0")] else []) ++
  [("-r", toString e.fps), ("-c:a", e.audioCodec), ("-b:a", e.audioBitrate),
    ("-pix_fmt", "yuv420p")] ++
  (match f.container with
    | .webm => [("-row-mt", "1")]
    | .mp4 | .mov =>
      ("-movflags", "+faststart") :: if f.codec = .hevc then [("-tag:v", "hvc1")] else [])

theorem flatten_encodingOptions (f : OutputFormat) (quality : Quality) :
    flatten (encodingOptions f quality) = (Encoding.ofFormat f quality).args := by
  rcases hcodec : f.codec <;> rcases hbitrate : f.videoBitrate <;>
    rcases hcontainer : f.container <;>
    simp [flatten, encodingOptions, Encoding.args, Encoding.rateArgs, Encoding.ofFormat,
      Encoding.containerArgs, hcodec, hbitrate, hcontainer, Codec.takesPreset, Codec.encoder]

/-- The keys that an encoding uses. -/
def encodingKeys : List String :=
  ["-c:v", "-preset", "-b:v", "-crf", "-r", "-c:a", "-b:a", "-pix_fmt", "-row-mt", "-movflags",
    "-tag:v"]

theorem encodingOptions_keys (f : OutputFormat) (quality : Quality) :
    (encodingOptions f quality).map Prod.fst ⊆ encodingKeys := by
  rcases hcodec : f.codec <;> rcases hbitrate : f.videoBitrate <;>
    rcases hcontainer : f.container <;>
    simp [encodingOptions, Encoding.ofFormat, hcodec, hbitrate, hcontainer, encodingKeys,
      Codec.takesPreset, Codec.encoder]

/-- The options of a rendering after the reporting ones. -/
def renderOptions (g : Graph) (encoding : List (String × String)) : List (String × String) :=
  g.inputs.map (fun source => ("-i", source)) ++
  [("-filter_complex", g.text), ("-map", (Graph.Pad.output g.picture).text),
    ("-map", (Graph.Pad.output .sound).text)] ++
  encoding ++ [("-t", Graph.seconds g.duration)]

theorem opened_inputs (sources : List String) (i : Invocation) :
    sources.foldl (fun i source => i.withInput [] source) i =
      { i with inputs := i.inputs ++ sources.map fun source => ⟨[], source⟩ } := by
  induction sources generalizing i with
  | nil => simp
  | cons source sources ih =>
    rw [List.foldl_cons, ih]
    simp [Invocation.withInput]

/-- The arguments of a rendering, as switches and options. -/
theorem args_invocation (g : Graph) (f : OutputFormat) (quality : Quality) (output : String) :
    (g.invocation (.ofFormat f quality) output).args =
      ["-y", "-hide_banner", "-v", "error", "-progress", "pipe:2", "-nostats"] ++
        (flatten (renderOptions g (encodingOptions f quality)) ++ [output]) := by
  have hinputs : flatten (g.inputs.map fun source => ("-i", source)) =
      (g.inputs.map fun source => InputFile.mk [] source).flatMap Invocation.inputArgs := by
    simp [flatten, List.flatMap_map, Invocation.inputArgs]
  rw [renderOptions, flatten_append, flatten_append, flatten_append, flatten_encodingOptions,
    hinputs]
  simp [Graph.invocation, Invocation.args, Invocation.withMap, Invocation.withOutputArgs,
    Invocation.writing, opened_inputs, flatten]

theorem renderOptions_keys (g : Graph) (f : OutputFormat) (quality : Quality) :
    ∀ o ∈ renderOptions g (encodingOptions f quality), o.1 ∉ switches := by
  intro o ho hs
  have hk : o.1 ∈ ["-i", "-filter_complex", "-map", "-t"] ++ encodingKeys := by
    simp only [renderOptions, List.append_assoc, List.mem_append, List.mem_map] at ho
    rcases ho with ⟨source, _, rfl⟩ | ho | ho | ho
    · simp
    · simp only [List.mem_cons, List.not_mem_nil, or_false] at ho
      rcases ho with rfl | rfl | rfl <;> simp
    · exact List.mem_append_right _ (encodingOptions_keys f quality (List.mem_map_of_mem ho))
    · rw [List.mem_singleton.1 ho]
      simp
  revert hk
  simp only [switches, List.mem_cons, List.not_mem_nil, or_false] at hs
  rcases hs with hs | hs | hs <;> rw [hs] <;> decide

theorem options_invocation (g : Graph) (f : OutputFormat) (quality : Quality) (output : String) :
    options (g.invocation (.ofFormat f quality) output).args =
      ("-v", "error") :: ("-progress", "pipe:2") ::
        renderOptions g (encodingOptions f quality) := by
  rw [args_invocation]
  simp only [List.cons_append, List.nil_append]
  rw [options_switch (by decide), options_switch (by decide), options_option (by decide),
    options_option (by decide), options_switch (by decide),
    options_flatten_append _ (renderOptions_keys g f quality)]
  simp [options]

theorem filter_encodingOptions (f : OutputFormat) (quality : Quality) (key : String)
    (hk : key ∉ encodingKeys) : (encodingOptions f quality).filter (fun o => o.1 = key) = [] := by
  rw [List.filter_eq_nil_iff]
  intro o ho he
  exact hk (of_decide_eq_true he ▸ encodingOptions_keys f quality (List.mem_map_of_mem ho))

theorem valuesOf_input (g : Graph) (f : OutputFormat) (quality : Quality) (output : String) :
    valuesOf "-i" (g.invocation (.ofFormat f quality) output).args = g.inputs := by
  have hencoding := filter_encodingOptions f quality "-i" (by decide)
  simp [valuesOf, options_invocation, renderOptions, List.filter_append, List.filter_map,
    hencoding, Function.comp_def]

theorem valuesOf_graph (g : Graph) (f : OutputFormat) (quality : Quality) (output : String) :
    valuesOf "-filter_complex" (g.invocation (.ofFormat f quality) output).args = [g.text] := by
  have hencoding := filter_encodingOptions f quality "-filter_complex" (by decide)
  simp [valuesOf, options_invocation, renderOptions, List.filter_append, List.filter_map,
    hencoding, Function.comp_def]

/-- The picture and the sound are what a rendering writes. -/
theorem valuesOf_map (g : Graph) (f : OutputFormat) (quality : Quality) (output : String) :
    valuesOf "-map" (g.invocation (.ofFormat f quality) output).args =
      [(Graph.Pad.output g.picture).text, (Graph.Pad.output .sound).text] := by
  have hencoding := filter_encodingOptions f quality "-map" (by decide)
  simp [valuesOf, options_invocation, renderOptions, List.filter_append, List.filter_map,
    hencoding, Function.comp_def]

/-- The last option is the length of the rendering. -/
theorem valuesOf_duration (g : Graph) (f : OutputFormat) (quality : Quality) (output : String) :
    valuesOf "-t" (g.invocation (.ofFormat f quality) output).args =
      [Graph.seconds g.duration] := by
  have hencoding := filter_encodingOptions f quality "-t" (by decide)
  simp [valuesOf, options_invocation, renderOptions, List.filter_append, List.filter_map,
    hencoding, Function.comp_def]

end RenderGateway.Arguments
