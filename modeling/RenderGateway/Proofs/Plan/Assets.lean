import RenderGateway.Proofs.Command.Localized
import RenderGateway.Proofs.Plan.Timeline

/-!
# Assets of checked plans

An item comes to its asset through its own url, through the first source of the name it gives, or
through the url of the plan. An url of its own or of the plan that is blank counts as none; the url
of a source is taken as it is. In a plan that passes the check every item resolves, and its asset is
blank exactly if it comes to it through a source with a blank url. The command of the plan opens
just these assets.
-/

namespace RenderGateway.Plan

variable {p : Plan} {own sourceId : Option String} {url : String}

/-- The source is the first one with the id. -/
def FirstNamed (p : Plan) (id : String) (source : Source) : Prop :=
  source.id = id ∧ ∃ before after, p.sources = before ++ source :: after ∧
    ∀ s ∈ before, s.id ≠ id

theorem source?_eq_some_iff {id : String} {source : Source} :
    p.source? id = some source ↔ p.FirstNamed id source := by
  simp [source?, FirstNamed, List.find?_eq_some_iff_append]

/-- There is no url, or there is nothing in it. -/
def Absent (url : Option String) : Prop := ∀ u, url = some u → Text.isBlankText u = true

theorem present_eq_none_iff {url : Option String} : present url = none ↔ Absent url := by
  simp [present, Absent, Option.filter_eq_none_iff]

theorem present_eq_some_iff {own : Option String} :
    present own = some url ↔ own = some url ∧ Text.isBlankText url = false := by
  simp [present, Option.filter_eq_some_iff]

/-- The ways of an item with an url of its own and the name of a source to its asset. -/
inductive Resolves (p : Plan) : Option String → Option String → String → Prop
  | own {url : String} (hurl : Text.isBlankText url = false) (sourceId : Option String) :
    Resolves p (some url) sourceId url
  | named {own : Option String} {id : String} {source : Source} (hown : Absent own)
    (hsource : p.FirstNamed id source) : Resolves p own (some id) source.url
  | default {own : Option String} {url : String} (hown : Absent own)
    (hdefault : p.defaultUrl = some url) (hurl : Text.isBlankText url = false) :
    Resolves p own none url

theorem resolveAsset_eq_some_iff :
    p.resolveAsset own sourceId = some url ↔ p.Resolves own sourceId url := by
  unfold resolveAsset
  constructor
  · intro h
    cases hown : present own with
    | some u =>
      rw [hown] at h
      cases h
      obtain ⟨rfl, hurl⟩ := present_eq_some_iff.1 hown
      exact .own hurl sourceId
    | none =>
      rw [hown] at h
      have habsent := present_eq_none_iff.1 hown
      cases sourceId with
      | some id =>
        obtain ⟨source, hsource, rfl⟩ := Option.map_eq_some_iff.1 h
        exact .named habsent (source?_eq_some_iff.1 hsource)
      | none =>
        obtain ⟨hdefault, hurl⟩ := present_eq_some_iff.1 h
        exact .default habsent hdefault hurl
  · intro h
    cases h with
    | own hurl =>
      rw [present_eq_some_iff.2 ⟨rfl, hurl⟩]
    | named hown hsource =>
      rw [present_eq_none_iff.2 hown]
      exact Option.map_eq_some_iff.2 ⟨_, source?_eq_some_iff.2 hsource, rfl⟩
    | default hown hdefault hurl =>
      rw [present_eq_none_iff.2 hown]
      exact present_eq_some_iff.2 ⟨hdefault, hurl⟩

/-- The item has no url of its own and names a source whose url is blank. -/
def NamesBlank (p : Plan) (own sourceId : Option String) : Prop :=
  Absent own ∧ ∃ id source, sourceId = some id ∧ p.FirstNamed id source ∧
    Text.isBlankText source.url = true

theorem FirstNamed.unique {id : String} {source other : Source} (h : p.FirstNamed id source)
    (hother : p.FirstNamed id other) : source = other :=
  Option.some.inj ((source?_eq_some_iff.2 h).symm.trans (source?_eq_some_iff.2 hother))

/-- Of the three ways only the one through a source leads to a blank asset. -/
theorem Resolves.isBlankText_iff (h : p.Resolves own sourceId url) :
    Text.isBlankText url = true ↔ p.NamesBlank own sourceId := by
  cases h with
  | own hurl sourceId =>
    refine iff_of_false (by simp [hurl]) fun hnames => ?_
    have hblank := hnames.1 url rfl
    rw [hurl] at hblank
    cases hblank
  | named hown hsource =>
    constructor
    · intro hblank
      exact ⟨hown, _, _, rfl, hsource, hblank⟩
    · rintro ⟨-, _, source, hid, hfirst, hblank⟩
      cases hid
      rwa [hsource.unique hfirst]
  | default hown hdefault hurl =>
    refine iff_of_false (by simp [hurl]) ?_
    rintro ⟨-, _, _, hnone, -⟩
    cases hnone

/-- An item that comes to an asset, which is blank only if it is that of a source it names. -/
theorem resolves_of_isSome (h : (p.resolveAsset own sourceId).isSome = true) :
    ∃ url, p.resolveAsset own sourceId = some url ∧ p.Resolves own sourceId url ∧
      (Text.isBlankText url = true ↔ p.NamesBlank own sourceId) := by
  obtain ⟨url, hurl⟩ := Option.isSome_iff_exists.1 h
  have hresolves := resolveAsset_eq_some_iff.1 hurl
  exact ⟨url, hurl, hresolves, hresolves.isBlankText_iff⟩

theorem mem_assetUrls_iff : url ∈ p.assetUrls ↔
    (∃ s ∈ p.timeline, p.segmentAsset s = some url) ∨
      ∃ t ∈ p.audioTracks, p.audioAsset t = some url := by
  simp [assetUrls, mem_distinct]

/-- Items that all come to an asset have a blank one among them exactly if one of them names a
blank source. -/
theorem exists_blank_iff {α : Type} {items : List α} {urlOf idOf : α → Option String}
    (h : ∀ a ∈ items, (p.resolveAsset (urlOf a) (idOf a)).isSome = true) :
    (∃ url, (∃ a ∈ items, p.resolveAsset (urlOf a) (idOf a) = some url) ∧
        Text.isBlankText url = true) ↔
      ∃ a ∈ items, p.NamesBlank (urlOf a) (idOf a) := by
  constructor
  · rintro ⟨url, ⟨a, ha, hurl⟩, hblank⟩
    exact ⟨a, ha, (resolveAsset_eq_some_iff.1 hurl).isBlankText_iff.1 hblank⟩
  · rintro ⟨a, ha, hnames⟩
    obtain ⟨url, hurl, -, hiff⟩ := resolves_of_isSome (h a ha)
    exact ⟨url, ⟨a, ha, hurl⟩, hiff.2 hnames⟩

/-- In a valid plan there is a blank asset exactly if a segment or a track names a blank source. -/
theorem Valid.exists_blank_iff {r : Arithmetic} (h : p.Valid r) :
    (∃ url ∈ p.assetUrls, Text.isBlankText url = true) ↔
      (∃ s ∈ p.timeline, p.NamesBlank s.assetUrl s.sourceId) ∨
        ∃ t ∈ p.audioTracks, p.NamesBlank t.assetUrl t.sourceId := by
  simp only [mem_assetUrls_iff, or_and_right, exists_or]
  exact or_congr (Plan.exists_blank_iff fun s hs => (h.segments s hs).resolves)
    (Plan.exists_blank_iff fun t ht => (h.tracks t ht).resolves)

/-- In a plan that passes the check every segment and every track comes to an asset in one of the
three ways, and to a blank one exactly if it names a source with a blank url. The command of the
plan opens the assets, so it opens a blank one exactly if there is such a segment or track. -/
theorem assets_of_check {summary : PlanSummary} (hcheck : p.check = .ok summary) :
    (∀ s ∈ p.timeline, ∃ url, p.segmentAsset s = some url ∧
      p.Resolves s.assetUrl s.sourceId url ∧
      (Text.isBlankText url = true ↔ p.NamesBlank s.assetUrl s.sourceId)) ∧
    (∀ t ∈ p.audioTracks, ∃ url, p.audioAsset t = some url ∧
      p.Resolves t.assetUrl t.sourceId url ∧
      (Text.isBlankText url = true ↔ p.NamesBlank t.assetUrl t.sourceId)) ∧
    ∀ engine output c, p.compile engine output = .ok c →
      Arguments.valuesOf "-i" c.args = p.assetUrls ∧
      ((∃ source ∈ Arguments.valuesOf "-i" c.args, Text.isBlankText source = true) ↔
        (∃ s ∈ p.timeline, p.NamesBlank s.assetUrl s.sourceId) ∨
          ∃ t ∈ p.audioTracks, p.NamesBlank t.assetUrl t.sourceId) := by
  have hvalid : p.Valid .words := (check_eq_ok_iff.1 hcheck).1
  refine ⟨fun s hs => resolves_of_isSome (hvalid.segments s hs).resolves,
    fun t ht => resolves_of_isSome (hvalid.tracks t ht).resolves, fun engine output c hc => ?_⟩
  rw [sources_of_compile hc]
  exact ⟨rfl, hvalid.exists_blank_iff⟩

/-- A shot with an url of its own, one of a source, of which another has the same name, and the
sound of the plan's default. -/
def threeWays : Plan where
  id := "three"
  projectId := none
  defaultUrl := some "/uploads/song.mp3"
  sources := [⟨"cam", "/uploads/cam.mp4", none, none, none, none⟩,
    ⟨"cam", " ", none, none, none, none⟩]
  format := OutputFormat.ofSize 640 360
  timeline :=
    [⟨"s1", some "cam", none, some "/uploads/a.mp4", 0, 1000, none, 0, 1000, 1000, 1, "video", 0, [],
      none⟩,
     ⟨"s2", some "cam", none, some " ", 0, 1000, none, 1000, 2000, 1000, 1, "video", 0, [], none⟩]
  audioTracks := [⟨"t1", none, none, 0, 1000, 0, none, 1, 0, 0, 1, "music"⟩]
  textOverlays := []
  summary := none

theorem assets_of_threeWays : ∃ summary c, threeWays.check = .ok summary ∧
    threeWays.compile .serverFfmpeg "out.mp4" = .ok c ∧
    Arguments.valuesOf "-i" c.args =
      ["/uploads/a.mp4", "/uploads/cam.mp4", "/uploads/song.mp3"] ∧
    (∀ s ∈ threeWays.timeline, ¬ threeWays.NamesBlank s.assetUrl s.sourceId) := by
  have hpassed : threeWays.check.isOk = true := by decide +kernel
  obtain ⟨summary, hcheck⟩ := exists_of_isOk hpassed
  have hok : (threeWays.compile .serverFfmpeg "out.mp4").isOk = true := by decide +kernel
  obtain ⟨c, hc⟩ := exists_of_isOk hok
  obtain ⟨_, _, hcommand⟩ := assets_of_check hcheck
  obtain ⟨hsources, hblank⟩ := hcommand _ _ c hc
  have hassets : threeWays.assetUrls =
      ["/uploads/a.mp4", "/uploads/cam.mp4", "/uploads/song.mp3"] := by decide +kernel
  rw [hsources, hassets] at hblank
  refine ⟨summary, c, hcheck, hc, hsources.trans hassets, fun s hs hnames => ?_⟩
  obtain ⟨source, hmem, hsource⟩ := hblank.2 (.inl ⟨s, hs, hnames⟩)
  revert source
  decide +kernel

/-- A shot of a source that has a blank url. -/
def blankSource : Plan where
  id := "blank"
  projectId := none
  defaultUrl := none
  sources := [⟨"cam", " ", none, none, none, none⟩]
  format := OutputFormat.ofSize 640 360
  timeline :=
    [⟨"s1", some "cam", none, none, 0, 1000, none, 0, 1000, 1000, 1, "video", 0, [], none⟩]
  audioTracks := []
  textOverlays := []
  summary := none

/-- The plan passes the check, and its command opens a file without a name. -/
theorem blankSource_opened : (∃ summary, blankSource.check = .ok summary) ∧
    (∃ s ∈ blankSource.timeline, blankSource.segmentAsset s = some " ") ∧
    Text.isBlankText " " = true ∧
    ∃ c, blankSource.compile .serverFfmpeg "out.mp4" = .ok c ∧
      Arguments.valuesOf "-i" c.args = [" "] := by
  have hpassed : blankSource.check.isOk = true := by decide +kernel
  have hok : (blankSource.compile .serverFfmpeg "out.mp4").isOk = true := by decide +kernel
  obtain ⟨c, hc⟩ := exists_of_isOk hok
  have hassets : blankSource.assetUrls = [" "] := by decide +kernel
  exact ⟨exists_of_isOk hpassed, by decide +kernel, by decide +kernel, c, hc,
    (sources_of_compile hc).trans hassets⟩

end RenderGateway.Plan
