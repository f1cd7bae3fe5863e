import RenderGateway.Proofs.Command.Localized
import RenderGateway.Proofs.Graph.Streams
import RenderGateway.Proofs.Render.Outcome
import RenderGateway.Source.Fetch

/-!
# The files of a plan and the files of its command

A command opens the assets of its plan, each once, and its graph finds the asset of every segment
and every track at the number of that input. The worker asks for the same assets in the same order.
It runs the encoder only when it has all of them, and on the places that they were brought to: no
file is fetched that is not read, and none is read that was not fetched. This holds of every
worker, also of one that is told to stop in between.
-/

namespace RenderGateway

/-- What an attempt has brought to disk, and where to. -/
def Call.brought? : Call → Option (String × String)
  | fetch _ url _ (.ok path) => some (url, path)
  | _ => none

/-- The files that calls have brought to disk, in their order. -/
def Call.files (calls : List Call) : List (String × String) := calls.filterMap Call.brought?

theorem Call.files_append (calls later : List Call) :
    files (calls ++ later) = files calls ++ files later := List.filterMap_append

/-- The attempts that a render makes and the runs of the encoder behind them. -/
structure Workshop.Feeds (w : Workshop) (p : Plan) (fetches : List Call)
    (launches : List Launch) : Prop where
  asked : ∀ c ∈ fetches, ∃ index url attempt answer, c = .fetch index url attempt answer ∧
    p.assetUrls[index]? = some url
  in_order : (Call.files fetches).map Prod.fst <+: p.assetUrls
  brought : launches ≠ [] → (Call.files fetches).map Prod.fst = p.assetUrls
  read : (∀ file ∈ Call.files fetches, Text.isBlankText file.2 = false) → ∀ l ∈ launches,
    Arguments.valuesOf "-i" l.command.args = Plan.distinct ((Call.files fetches).map Prod.snd)
  launched : (∀ file ∈ Call.files fetches, Text.isBlankText file.2 = false) →
    (Call.files fetches).map Prod.fst = p.assetUrls →
    (w.settings.timeLimit? p.outputDuration).isSome → ∃ l, launches = [l]

namespace Plan

variable {p : Plan}

/-- A plan has a graph over the places of its assets if it has one over the assets. -/
theorem exists_graph_localized {paths : String → Option String} (placeable : p.Placeable paths)
    (h : ∃ g, Graph.ofPlan p = .ok g) : ∃ g, Graph.ofPlan (p.localized paths) = .ok g := by
  obtain ⟨hduration, hsegments, htexts, htracks⟩ := exists_graph_iff.1 h
  rw [exists_graph_iff, (Graph.mirrors_localized placeable).outputDuration, timeline_localized,
    audioTracks_localized]
  refine ⟨hduration, List.forall_mem_map.2 fun s hs => ?_, htexts,
    List.forall_mem_map.2 fun t ht => ?_⟩
  · rw [segmentAsset_localized placeable hs, Option.isSome_map]
    exact hsegments s hs
  · rw [audioAsset_localized placeable ht, Option.isSome_map]
    exact htracks t ht

theorem lookup_of_mem {entries : List (String × String)} (hkeys : (entries.map Prod.fst).Nodup)
    {entry : String × String} (h : entry ∈ entries) :
    entries.lookup entry.1 = some entry.2 := by
  obtain ⟨before, after, rfl⟩ := List.append_of_mem h
  refine List.lookup_eq_some_iff.2 ⟨before, after, rfl, fun other hother => ?_⟩
  rw [List.map_append, List.map_cons] at hkeys
  have hne := (List.nodup_append.1 hkeys).2.2 other.1 (List.mem_map_of_mem hother) entry.1
    List.mem_cons_self
  simpa using hne.symm

/-- The places of assets that all have entries are the places in the entries. -/
theorem map_pinned_lookup {entries : List (String × String)}
    (hkeys : (entries.map Prod.fst).Nodup) :
    (entries.map Prod.fst).map (pinned fun url => entries.lookup url) = entries.map Prod.snd := by
  rw [List.map_map]
  refine List.map_congr_left fun entry hentry => ?_
  rw [Function.comp_apply, pinned, lookup_of_mem hkeys hentry, Option.getD_some]

section Located

variable {entries : List (String × String)} (hkeys : entries.map Prod.fst = p.assetUrls)
include hkeys

theorem placeable_lookup (h : ∀ entry ∈ entries, Text.isBlankText entry.2 = false) :
    p.Placeable fun url => entries.lookup url := by
  intro url hurl
  rw [← hkeys] at hurl
  obtain ⟨entry, hentry, rfl⟩ := List.mem_map.1 hurl
  rw [pinned, lookup_of_mem (hkeys ▸ p.nodup_assetUrls) hentry]
  exact h entry hentry

/-- A plan that is moved to the entries is compiled to a command that opens the entries, each
once. -/
theorem sources_of_lookup (h : ∀ entry ∈ entries, Text.isBlankText entry.2 = false)
    {engine : Engine} {output : String} {c : CompiledCommand}
    (hc : (p.localized fun url => entries.lookup url).compile engine output = .ok c) :
    Arguments.valuesOf "-i" c.args = distinct (entries.map Prod.snd) := by
  rw [sources_of_compile hc, assetUrls_localized (placeable_lookup hkeys h), ← hkeys,
    map_pinned_lookup (hkeys ▸ p.nodup_assetUrls)]

end Located

end Plan

namespace Work

variable {α β : Type} {w : Workshop}

/-- The calls that a stretch of the work makes, with its result, satisfy a condition, whatever
state it begins in. -/
def Makes (x : Work α) (P : List Call → Except WorkEnd α → Prop) : Prop :=
  ∀ s, ∃ calls, (x.run s).2.calls = s.calls ++ calls ∧ P calls (x.run s).1

namespace Makes

variable {x : Work α} {P Q : List Call → Except WorkEnd α → Prop}

theorem mono (h : Makes x P) (hpq : ∀ calls result, P calls result → Q calls result) :
    Makes x Q := by
  intro s
  obtain ⟨calls, hcalls, hp⟩ := h s
  exact ⟨calls, hcalls, hpq calls _ hp⟩

theorem of_pure {a : α} (h : Q [] (.ok a)) : Makes (pure a) Q :=
  fun s => ⟨[], (List.append_nil s.calls).symm, h⟩

theorem of_throw {e : WorkEnd} (h : Q [] (.error e)) : Makes (throw e) Q :=
  fun s => ⟨[], (List.append_nil s.calls).symm, h⟩

/-- What follows a stretch adds its calls to those of the stretch. -/
theorem bind {f : α → Work β} {R : List Call → Except WorkEnd β → Prop} (hx : Makes x P)
    (hok : ∀ calls a, P calls (.ok a) → Makes (f a) fun later => R (calls ++ later))
    (herror : ∀ calls e, P calls (.error e) → R calls (.error e)) : Makes (x >>= f) R := by
  intro s
  obtain ⟨calls, hcalls, hp⟩ := hx s
  rcases hrun : x.run s with ⟨result, s'⟩
  rw [hrun] at hcalls hp
  cases result with
  | error e =>
    rw [run_bind_error hrun]
    exact ⟨calls, hcalls, herror calls e hp⟩
  | ok a =>
    obtain ⟨later, hlater, hr⟩ := hok calls a hp s'
    rw [run_bind_ok hrun]
    exact ⟨calls ++ later, by rw [hlater, hcalls, List.append_assoc], hr⟩

/-- A step without a call in front changes nothing of what is made. -/
theorem after {f : α → Work β} {R : List Call → Except WorkEnd β → Prop}
    (hx : Makes x fun calls _ => calls = []) (hok : ∀ a, Makes (f a) R)
    (herror : ∀ e, R [] (.error e)) : Makes (x >>= f) R := by
  refine hx.bind ?_ ?_
  · rintro _ a rfl
    exact hok a
  · rintro _ e rfl
    exact herror e

end Makes

/-! ### The steps of the work -/

/-- A step that makes no call. -/
abbrev Silent (x : Work α) : Prop := Makes x fun calls _ => calls = []

theorem silent_get : Silent (get : Work WorkState) :=
  fun s => ⟨[], (List.append_nil s.calls).symm, rfl⟩

theorem silent_send (u : JobUpdate) : Silent (send w u) :=
  fun s => ⟨[], (List.append_nil s.calls).symm, rfl⟩

theorem silent_handle (e : RenderFailure) (stage : Stage) (attempt : UInt32) :
    Silent (handle w e stage attempt) :=
  fun s => ⟨[], (List.append_nil s.calls).symm, rfl⟩

theorem silent_throw (e : WorkEnd) : Silent (throw e : Work α) := .of_throw rfl

theorem silent_abort (stage : Stage) (e : RenderFailure) : Silent (abort w stage e : Work α) :=
  .after (silent_handle e stage 1) (fun r => silent_throw (.failed r.fault)) fun _ => rfl

/-- A step that asks for a result goes on with it, and ends if there is none. -/
theorem makes_orAbort {ε : Type} (stage : Stage) (r : Except ε α) (failure : ε → RenderFailure) :
    Makes (orAbort w stage r failure) fun calls result =>
      calls = [] ∧ result.toOption = r.toOption := by
  cases r with
  | ok a => exact .of_pure ⟨rfl, rfl⟩
  | error e =>
    refine .after (silent_handle (failure e) stage 1) (fun r => ?_) fun _ => ⟨rfl, rfl⟩
    exact .of_throw ⟨rfl, rfl⟩

theorem makes_attemptFetch (index : Nat) (url : String) (attempt : UInt32) :
    Makes (attemptFetch w index url attempt) fun calls result =>
      (∃ path, calls = [.fetch index url attempt (.ok path)] ∧ result = .ok (.ok path)) ∨
      ∃ e record, calls = [.fetch index url attempt (.error e)] ∧
        result = .ok (.error record) := by
  intro s
  rw [run_attemptFetch]
  refine ⟨[.fetch index url attempt (answers w s index url attempt)], ?_, ?_⟩
  · cases answers w s index url attempt <;> rfl
  · cases answers w s index url attempt with
    | ok path => exact .inl ⟨path, rfl, rfl⟩
    | error e => exact .inr ⟨e, _, rfl, rfl⟩

theorem silent_awaitRetry (url : String) (attempt : UInt32) (record : FailureRecord)
    (delay : UInt64) : Silent (awaitRetry w url attempt record delay) := by
  refine .after (silent_send _) (fun _ => .after silent_get (fun s => ?_) fun _ => rfl) fun _ => rfl
  split
  · exact silent_abort _ _
  · exact .of_pure rfl

/-- Attempts at one source, with the place that they brought it to if they did. -/
structure Seeks (source : String × Nat) (calls : List Call) (result : Except WorkEnd String) :
    Prop where
  asked : ∀ c ∈ calls, ∃ attempt answer, c = .fetch source.2 source.1 attempt answer
  files_eq : Call.files calls = (result.toOption.map fun path => (source.1, path)).toList

namespace Seeks

variable {source : String × Nat} {calls : List Call} {result : Except WorkEnd String}

theorem found (attempt : UInt32) (path : String) :
    Seeks source [.fetch source.2 source.1 attempt (.ok path)] (.ok path) :=
  ⟨List.forall_mem_singleton.2 ⟨attempt, _, rfl⟩, rfl⟩

theorem failed (attempt : UInt32) (e : RenderFailure) (ends : WorkEnd) :
    Seeks source [.fetch source.2 source.1 attempt (.error e)] (.error ends) :=
  ⟨List.forall_mem_singleton.2 ⟨attempt, _, rfl⟩, rfl⟩

/-- An attempt that failed brings nothing to those after it. -/
theorem again (h : Seeks source calls result) (attempt : UInt32) (e : RenderFailure) :
    Seeks source ([.fetch source.2 source.1 attempt (.error e)] ++ calls) result where
  asked := List.forall_mem_append.2 ⟨List.forall_mem_singleton.2 ⟨attempt, _, rfl⟩, h.asked⟩
  files_eq := by
    rw [Call.files_append, h.files_eq]
    rfl

end Seeks

theorem makes_fetchFrom (source : String × Nat) (retries : Nat) (attempt : UInt32) :
    Makes (fetchFrom w source.2 source.1 retries attempt) (Seeks source) := by
  induction retries generalizing attempt with
  | zero =>
    rw [fetchFrom]
    refine (makes_attemptFetch source.2 source.1 attempt).bind ?_ ?_
    · rintro _ answer (⟨path, rfl, ⟨⟩⟩ | ⟨e, record, rfl, ⟨⟩⟩)
      · exact .of_pure (.found attempt path)
      · exact .of_throw (.failed attempt e _)
    · rintro _ e (⟨path, rfl, ⟨⟩⟩ | ⟨e, record, rfl, ⟨⟩⟩)
  | succ retries ih =>
    rw [fetchFrom]
    refine (makes_attemptFetch source.2 source.1 attempt).bind ?_ ?_
    · rintro _ answer (⟨path, rfl, ⟨⟩⟩ | ⟨e, record, rfl, ⟨⟩⟩)
      · exact .of_pure (.found attempt path)
      · dsimp only
        split
        · exact .of_throw (.failed attempt e _)
        · next delay _ =>
          exact .after (silent_awaitRetry source.1 attempt record delay)
            (fun _ => (ih (attempt + 1)).mono fun calls result h => h.again attempt e)
            (fun ends => .failed attempt e ends)
    · rintro _ e (⟨path, rfl, ⟨⟩⟩ | ⟨e, record, rfl, ⟨⟩⟩)

/-- Attempts at the sources of a list, in their order. They bring all of them if the work goes on
with their places, and only some of them otherwise. -/
structure SeeksAll (sources : List (String × Nat)) (calls : List Call)
    (result : Except WorkEnd (List (String × String))) : Prop where
  asked : ∀ c ∈ calls, ∃ source ∈ sources, ∃ attempt answer,
    c = .fetch source.2 source.1 attempt answer
  in_order : (Call.files calls).map Prod.fst <+: sources.map Prod.fst
  brought : ∀ paths, result = .ok paths →
    Call.files calls = paths ∧ paths.map Prod.fst = sources.map Prod.fst
  missed : ∀ e, result = .error e → (Call.files calls).length < sources.length

namespace SeeksAll

variable {source : String × Nat} {sources : List (String × Nat)} {calls later : List Call}

theorem nothing : SeeksAll [] [] (.ok []) where
  asked := nofun
  in_order := List.prefix_refl _
  brought := by
    rintro _ ⟨⟩
    exact ⟨rfl, rfl⟩
  missed := nofun

/-- No source is sought after one that was not brought. -/
theorem failed {e : WorkEnd} (h : Seeks source calls (.error e)) :
    SeeksAll (source :: sources) calls (.error e) where
  asked := fun c hc => ⟨source, List.mem_cons_self, h.asked c hc⟩
  in_order := by
    rw [h.files_eq]
    exact List.nil_prefix
  brought := nofun
  missed := by
    rintro _ ⟨⟩
    rw [h.files_eq]
    exact Nat.succ_pos _

theorem cons {path : String} {result : Except WorkEnd (List (String × String))}
    (h : Seeks source calls (.ok path)) (rest : SeeksAll sources later result) :
    SeeksAll (source :: sources) (calls ++ later)
      (result.map fun paths => (source.1, path) :: paths) where
  asked := List.forall_mem_append.2 ⟨fun c hc => ⟨source, List.mem_cons_self, h.asked c hc⟩,
    fun c hc => by
      obtain ⟨other, hother, hcall⟩ := rest.asked c hc
      exact ⟨other, List.mem_cons_of_mem _ hother, hcall⟩⟩
  in_order := by
    rw [Call.files_append, h.files_eq]
    exact List.cons_prefix_cons.2 ⟨rfl, rest.in_order⟩
  brought := by
    intro paths hpaths
    cases result with
    | error e => cases hpaths
    | ok others =>
      cases hpaths
      obtain ⟨hfiles, hkeys⟩ := rest.brought others rfl
      rw [Call.files_append, h.files_eq, hfiles, List.map_cons, hkeys]
      exact ⟨rfl, rfl⟩
  missed := by
    intro e he
    cases result with
    | ok others => cases he
    | error e' =>
      rw [Call.files_append, h.files_eq]
      exact Nat.succ_lt_succ (rest.missed e' rfl)

end SeeksAll

theorem makes_fetches (sources : List (String × Nat)) :
    Makes (sources.mapM (fetchOne w)) (SeeksAll sources) := by
  induction sources with
  | nil => exact .of_pure .nothing
  | cons source sources ih =>
    have hone : Makes (fetchOne w source) fun calls result =>
        Seeks source calls (result.map Prod.snd) ∧
          ∀ entry, result = .ok entry → entry.1 = source.1 := by
      refine (makes_fetchFrom source _ 1).bind (fun calls path h => .of_pure ?_) ?_
      · rw [List.append_nil]
        refine ⟨h, ?_⟩
        rintro _ ⟨⟩
        rfl
      · exact fun calls e h => ⟨h, nofun⟩
    rw [List.mapM_cons]
    refine hone.bind ?_ fun calls e h => .failed h.1
    rintro calls ⟨url, path⟩ ⟨h, hurl⟩
    obtain rfl := hurl _ rfl
    refine ih.bind (fun later paths hrest => .of_pure ?_) fun later e hrest => .cons h hrest
    rw [List.append_nil]
    exact .cons h hrest

theorem silent_sends (us : List JobUpdate) :
    Silent (forIn us PUnit.unit fun u _ => do
      send w u
      pure (.yield PUnit.unit) : Work PUnit) := by
  induction us with
  | nil => exact .of_pure rfl
  | cons u us ih =>
    have hfirst : Silent (send w u >>= fun _ => pure (.yield PUnit.unit) :
        Work (ForInStep PUnit)) := .after (silent_send u) (fun _ => .of_pure rfl) fun _ => rfl
    rw [List.forIn_cons]
    refine .after hfirst (fun step => ?_) fun _ => rfl
    cases step with
    | done => exact .of_pure rfl
    | yield => exact ih

theorem makes_launch (l : Launch) :
    Makes (launch w l) fun calls result => calls = [.encode l] ∧ result = .ok (w.encode l) :=
  fun _ => ⟨_, rfl, rfl, rfl⟩

/-- The runs of the encoder behind a compilation: one if there is a command and a limit for it. -/
def launches (w : Workshop) (duration : Int) (command : Except MediaFailure CompiledCommand) :
    List Launch :=
  (command.toOption.bind fun c => (w.settings.timeLimit? duration).map (launchOf w c)).toList

theorem makes_encode (command : CompiledCommand) (duration : Int) :
    Makes (encode w command duration) fun calls _ =>
      calls = (launches w duration (.ok command)).map Call.encode := by
  unfold encode launches
  cases hlimit : w.settings.timeLimit? duration with
  | none => exact silent_throw .crashed
  | some limit =>
    refine (makes_launch _).bind ?_ ?_
    · rintro _ report ⟨rfl, -⟩
      refine .after (silent_sends _) (fun _ => ?_) fun _ => rfl
      refine (makes_orAbort .encode report.result .media).bind ?_ ?_
      · rintro _ _ ⟨rfl, -⟩
        exact .of_pure rfl
      · rintro _ _ ⟨rfl, -⟩
        rfl
    · rintro _ _ ⟨-, ⟨⟩⟩

theorem silent_store (output : String) (written : Option ByteArray) (name mimeType : String) :
    Silent (store w output written name mimeType) := by
  refine .after silent_get (fun s => ?_) fun _ => rfl
  refine .after ((makes_orAbort .store _ .storage).mono fun _ _ h => h.1) ?_ fun _ => rfl
  intro r s
  exact ⟨[], (List.append_nil s.calls).symm, rfl⟩

/-- The end of a render runs the encoder if it has a command and a limit, and only then. -/
theorem makes_deliver (duration : Int) (command : Except MediaFailure CompiledCommand)
    (output name mimeType : String) :
    Makes (do
      let c ← orAbort w .plan command .media
      let written ← encode w c duration
      let file ← store w output written name mimeType
      return .rendered ⟨file.publicUrl, file.size, w.elapsed⟩ : Work JobOutcome) fun calls _ =>
      calls = (launches w duration command).map Call.encode := by
  refine (makes_orAbort .plan command .media).bind ?_ ?_
  · rintro _ c ⟨rfl, hc⟩
    have hcommand : launches w duration command = launches w duration (.ok c) := by
      rw [launches, ← hc]
      rfl
    rw [hcommand]
    refine (makes_encode c duration).bind ?_ fun _ _ h => h
    rintro _ written rfl
    have hstore : Silent (store w output written name mimeType >>= fun file =>
        pure (.rendered ⟨file.publicUrl, file.size, w.elapsed⟩) : Work JobOutcome) :=
      .after (silent_store output written name mimeType) (fun _ => .of_pure rfl) fun _ => rfl
    refine hstore.mono ?_
    rintro _ _ rfl
    simp
  · rintro _ e ⟨rfl, hc⟩
    rw [launches, ← hc]
    rfl

theorem makes_renderFetched (p : Plan) (name : String) (paths : List (String × String)) :
    Makes (renderFetched w p name paths) fun calls _ => ∃ output,
      calls = (launches w p.outputDuration ((p.localized fun url => paths.lookup url).compile
        .serverFfmpeg output)).map Call.encode := by
  intro s
  rw [run_renderFetched]
  obtain ⟨calls, hcalls, h⟩ := makes_deliver (w := w) p.outputDuration
    ((p.localized fun url => paths.lookup url).compile .serverFfmpeg (w.outputPath s.job.id p))
    (w.outputPath s.job.id p) name p.format.container.mimeType s
  exact ⟨calls, hcalls, _, h⟩

theorem mem_launches {duration : Int} {command : Except MediaFailure CompiledCommand} {l : Launch}
    (h : l ∈ launches w duration command) : command = .ok l.command := by
  obtain ⟨c, hc, hl⟩ := Option.bind_eq_some_iff.1 (Option.mem_toList.1 h)
  obtain ⟨limit, -, rfl⟩ := Option.map_eq_some_iff.1 hl
  cases command with
  | error e => cases hc
  | ok c' => rw [Option.some.inj hc]; rfl

namespace SeeksAll

variable {p : Plan} {fetches : List Call}

/-- The sources of a plan are its assets, by their numbers. -/
theorem asked_of_plan {result : Except WorkEnd (List (String × String))}
    (h : SeeksAll p.assetUrls.zipIdx fetches result) : ∀ c ∈ fetches, ∃ index url attempt answer,
      c = .fetch index url attempt answer ∧ p.assetUrls[index]? = some url := by
  intro c hc
  obtain ⟨⟨url, index⟩, hsource, attempt, answer, rfl⟩ := h.asked c hc
  exact ⟨index, url, attempt, answer, rfl, List.mk_mem_zipIdx_iff_getElem?.1 hsource⟩

theorem in_order_of_plan {result : Except WorkEnd (List (String × String))}
    (h : SeeksAll p.assetUrls.zipIdx fetches result) :
    (Call.files fetches).map Prod.fst <+: p.assetUrls := by
  have horder := h.in_order
  rwa [List.zipIdx_map_fst] at horder

/-- The encoder has what was brought. -/
theorem feeds (hgraph : ∃ g, Graph.ofPlan p = .ok g) {paths : List (String × String)}
    (h : SeeksAll p.assetUrls.zipIdx fetches (.ok paths)) (output : String) :
    w.Feeds p fetches (launches w p.outputDuration
      ((p.localized fun url => paths.lookup url).compile .serverFfmpeg output)) := by
  obtain ⟨rfl, hkeys⟩ := h.brought paths rfl
  rw [List.zipIdx_map_fst] at hkeys
  refine ⟨h.asked_of_plan, h.in_order_of_plan, fun _ => hkeys, fun hpaths l hl => ?_, ?_⟩
  · exact Plan.sources_of_lookup hkeys hpaths (mem_launches hl)
  · intro hpaths _ hlimit
    obtain ⟨limit, hlimit⟩ := Option.isSome_iff_exists.1 hlimit
    obtain ⟨c, hc⟩ : ∃ c, Plan.compile _ .serverFfmpeg output = .ok c :=
      (Plan.exists_compile_iff (.inl rfl)).2
        (Plan.exists_graph_localized (Plan.placeable_lookup hkeys hpaths) hgraph)
    exact ⟨launchOf w c limit, by rw [launches, hc, hlimit]; rfl⟩

/-- The encoder does not run if something is missing. -/
theorem feeds_nothing {e : WorkEnd} (h : SeeksAll p.assetUrls.zipIdx fetches (.error e)) :
    w.Feeds p fetches [] := by
  refine ⟨h.asked_of_plan, h.in_order_of_plan, fun hne => absurd rfl hne, nofun, ?_⟩
  intro _ hkeys
  have hmissed := h.missed e rfl
  rw [List.length_zipIdx, ← hkeys, List.length_map] at hmissed
  exact absurd hmissed (Nat.lt_irrefl _)

end SeeksAll

theorem makes_render {p : Plan} (h : ∃ g, Graph.ofPlan p = .ok g) (name : String) :
    Makes (render w p name) fun calls _ => ∃ fetches launches,
      calls = fetches ++ launches.map Call.encode ∧ w.Feeds p fetches launches := by
  rw [render_eq]
  refine (makes_fetches p.assetUrls.zipIdx).bind ?_ ?_
  · intro fetches paths hfetches
    refine (makes_renderFetched p name paths).mono ?_
    rintro _ _ ⟨output, rfl⟩
    exact ⟨fetches, _, rfl, hfetches.feeds h output⟩
  · intro fetches e hfetches
    exact ⟨fetches, [], (List.append_nil fetches).symm, hfetches.feeds_nothing⟩

end Work

/-- A worker with one file in its upload store. -/
def Workshop.stocked : Workshop :=
  { Work.flaky with
    fetch := fun outputs directory index reference _ =>
      (LocalSource.fetch
        [(⟨"/data/uploads", "uploads", ""⟩, .open [("b.mp4", ⟨#[1]⟩)]),
          (Work.flaky.outputs, outputs)]
        (fun _ => .broken "connection refused" true) directory index reference).map
          LocalSource.path }

namespace Plan

/-- The sources that a command opens are the assets of its plan, each once. Its graph reads the
picture of every segment and the sound of every track from the input at the number of its asset. A
render asks for the same assets, in their order, and runs the encoder only on the files that it was
brought. -/
theorem inputs_of_compile {p : Plan} {engine : Engine} {output : String} {c : CompiledCommand}
    (h : p.compile engine output = .ok c) :
    Arguments.valuesOf "-i" c.args = p.assetUrls ∧ p.assetUrls.Nodup ∧
    Arguments.valuesOf "-filter_complex" c.args = [c.graph] ∧
    (Graph.readStreams c.graph).map (fun stream => (p.assetUrls[stream.1]?, stream.2)) =
      (p.timeline.mapIdx fun i a => (p.segmentAsset a, 'v', "v" ++ toString i)) ++
      (p.audioTracks.mapIdx fun j t => (p.audioAsset t, 'a', "a" ++ toString j)) ∧
    (∀ a ∈ p.timeline, (p.segmentAsset a).isSome) ∧
    (∀ t ∈ p.audioTracks, (p.audioAsset t).isSome) ∧
    ∀ (w : Workshop) (s : WorkState) (name : String), ∃ fetches launches,
      ((Work.render w p name).run s).2.calls =
        s.calls ++ (fetches ++ launches.map Call.encode) ∧ w.Feeds p fetches launches := by
  obtain ⟨g, hg, hgraph, hargs⟩ := compile_ok h
  obtain ⟨s, hnodes, _⟩ := Graph.ofPlan_ok hg
  obtain ⟨_, hsegments, _, htracks⟩ := exists_graph_iff.1 ⟨g, hg⟩
  refine ⟨sources_of_compile h, p.nodup_assetUrls, ?_, ?_, hsegments, htracks,
    fun w state name => ?_⟩
  · rw [hargs, hgraph]
    exact Arguments.valuesOf_graph g _ _ _
  · rw [hgraph]
    exact s.assets_of_streams hnodes
  · obtain ⟨calls, hcalls, fetches, launches, rfl, hfeeds⟩ :=
      Work.makes_render (w := w) ⟨g, hg⟩ name state
    exact ⟨fetches, launches, hcalls, hfeeds⟩

/-- A clip that names one stored file in two ways. -/
def twiceNamed : Plan := { clip with defaultUrl := some "/uploads/b.mp4" }

/-- The encoder opens a file once that was brought for two names. -/
theorem inputs_of_twiceNamed : ∃ c fetches l,
    twiceNamed.compile .serverFfmpeg "clip.mp4" = .ok c ∧
    Arguments.valuesOf "-i" c.args = ["/uploads/b.mp4", "b.mp4"] ∧
    ((Work.render .stocked twiceNamed "clip.mp4").run Work.begun).2.calls =
      fetches ++ [.encode l] ∧
    Call.files fetches =
      [("/uploads/b.mp4", "/data/uploads/b.mp4"), ("b.mp4", "/data/uploads/b.mp4")] ∧
    Arguments.valuesOf "-i" l.command.args = ["/data/uploads/b.mp4"] := by
  have hassets : twiceNamed.assetUrls = ["/uploads/b.mp4", "b.mp4"] := by decide +kernel
  have hok : (twiceNamed.compile .serverFfmpeg "clip.mp4").isOk = true := by decide +kernel
  obtain ⟨c, hc⟩ := exists_of_isOk hok
  obtain ⟨hsources, _, _, _, _, _, hrender⟩ := inputs_of_compile hc
  obtain ⟨fetches, launches, hcalls, hfeeds⟩ := hrender .stocked Work.begun "clip.mp4"
  have hencodes : Call.files (launches.map Call.encode) = [] := by simp [Call.files, Call.brought?]
  have hfiles : Call.files fetches =
      [("/uploads/b.mp4", "/data/uploads/b.mp4"), ("b.mp4", "/data/uploads/b.mp4")] := by
    have hall : Call.files ((Work.render .stocked twiceNamed "clip.mp4").run
        Work.begun).2.calls =
          [("/uploads/b.mp4", "/data/uploads/b.mp4"), ("b.mp4", "/data/uploads/b.mp4")] := by
      decide +kernel
    rw [hcalls, Call.files_append, Call.files_append, hencodes, List.append_nil] at hall
    exact hall
  have hpaths : ∀ file ∈ Call.files fetches, Text.isBlankText file.2 = false := by
    rw [hfiles]
    decide +kernel
  have hlimit : (Workshop.stocked.settings.timeLimit? twiceNamed.outputDuration).isSome = true := by
    decide +kernel
  obtain ⟨l, rfl⟩ := hfeeds.launched hpaths (by rw [hfiles, hassets]; rfl) hlimit
  have hread := hfeeds.read hpaths l (List.mem_singleton.2 rfl)
  rw [hfiles] at hread
  exact ⟨c, fetches, l, hc, hsources.trans hassets, hcalls, hfiles, hread⟩

end Plan

end RenderGateway
