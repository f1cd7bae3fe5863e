import RenderGateway.Proofs.Plan.RoundTrip
import RenderGateway.Transform.Options

/-!
# Transform options through JSON

The options of a transform are read back from their wire form as they were, also beside other
fields, if the doubles in them are finite.
-/

namespace RenderGateway

open Json Json.Decoder

namespace TrimOptions

def slots (t : TrimOptions) : List Slot :=
  [("startMs", some (ofInt64 t.start)), ("endMs", t.stop.map ofInt64)]

theorem toJson_eq (t : TrimOptions) : t.toJson = .object (ofSlots t.slots) := by
  simp [toJson, slots]

theorem reads (t : TrimOptions) : Reads decoder toJson t := by
  refine reads_record t.toJson_eq rfl (by simp) fun record _ hslots => ?_
  simp only [slots, List.forall_mem_cons] at hslots
  obtain ⟨hstart, hstop, -⟩ := hslots
  rw [Record.withDefault_eq (reads_int64 _) hstart,
    Record.optional_eq (fun _ _ => reads_int64 _) hstop]
  rfl

theorem depth_toJson_le (t : TrimOptions) : t.toJson.depth ≤ 1 := by
  rw [toJson_eq]
  apply depth_ofSlots_le_iff.2
  simp [slots]

end TrimOptions

namespace ResizeOptions

def slots (o : ResizeOptions) : List Slot :=
  [("width", some (ofUInt32 o.width)), ("height", some (ofUInt32 o.height))]

theorem toJson_eq (o : ResizeOptions) : o.toJson = .object (ofSlots o.slots) := rfl

theorem reads (o : ResizeOptions) : Reads decoder toJson o := by
  refine reads_record o.toJson_eq rfl (by simp) fun record _ hslots => ?_
  simp only [slots, List.forall_mem_cons] at hslots
  obtain ⟨hwidth, hheight, -⟩ := hslots
  rw [Record.required_eq (reads_uint32 _) hwidth, Record.required_eq (reads_uint32 _) hheight]
  rfl

theorem depth_toJson_le (o : ResizeOptions) : o.toJson.depth ≤ 1 := by
  rw [toJson_eq]
  apply depth_ofSlots_le_iff.2
  simp [slots]

end ResizeOptions

namespace AudioOptions

def slots (a : AudioOptions) : List Slot :=
  [("mute", some (.bool a.mute)), ("volume", a.volume.map ofBinary64),
   ("fadeInMs", a.fadeIn.map ofInt64), ("fadeOutMs", a.fadeOut.map ofInt64)]

theorem toJson_eq (a : AudioOptions) : a.toJson = .object (ofSlots a.slots) := by
  simp [toJson, slots]

theorem reads {a : AudioOptions} (h : ∀ x ∈ a.volume, x.isFinite = true) :
    Reads decoder toJson a := by
  refine reads_record a.toJson_eq rfl (by simp) fun record _ hslots => ?_
  simp only [slots, List.forall_mem_cons] at hslots
  obtain ⟨hmute, hvolume, hfadeIn, hfadeOut, -⟩ := hslots
  rw [Record.withDefault_eq (reads_boolean _) hmute,
    Record.optional_eq (fun x hx => reads_binary64 (h x hx)) hvolume,
    Record.optional_eq (fun _ _ => reads_int64 _) hfadeIn,
    Record.optional_eq (fun _ _ => reads_int64 _) hfadeOut]
  rfl

theorem depth_toJson_le (a : AudioOptions) : a.toJson.depth ≤ 1 := by
  rw [toJson_eq]
  apply depth_ofSlots_le_iff.2
  simp [slots]

end AudioOptions

namespace TransformOptions

/-- The doubles in the options of a transform. -/
def numbers (o : TransformOptions) : List Binary64 :=
  o.speed.toList ++ o.filters.flatMap VideoFilter.numbers ++
    (o.audio.bind AudioOptions.volume).toList

def slots (o : TransformOptions) : List Slot :=
  [("trim", o.trim.map TrimOptions.toJson), ("speed", o.speed.map ofBinary64),
   ("resize", o.resize.map ResizeOptions.toJson),
   ("filters", nonEmpty VideoFilter.toJson o.filters),
   ("audio", o.audio.map AudioOptions.toJson), ("format", o.format.map Container.toJson),
   ("quality", o.quality.map Quality.toJson)]

theorem toJson_eq (o : TransformOptions) : o.toJson = .object (ofSlots o.slots) := by
  simp [toJson, slots]

theorem allFinite_numbers {o : TransformOptions} :
    AllFinite o.numbers ↔ (∀ x ∈ o.speed, x.isFinite = true) ∧
      (∀ f ∈ o.filters, AllFinite f.numbers) ∧
      ∀ a ∈ o.audio, ∀ x ∈ a.volume, x.isFinite = true := by
  rw [numbers, allFinite_append, allFinite_append, allFinite_flatMap, and_assoc]
  cases o.audio <;> simp [AllFinite]

/-- Options are read from the slots of their fields, among others too. -/
theorem decoder_ofSlots {o : TransformOptions} (h : AllFinite o.numbers) {slots : List Slot}
    (hslots : o.slots ⊆ slots) (hnodup : (slots.map Prod.fst).Nodup) (r : Repeats) :
    decoder r (.object (ofSlots slots)) = some o := by
  obtain ⟨hspeed, hfilters, haudio⟩ := allFinite_numbers.1 h
  refine reads_slots hnodup (fun record _ hfound => ?_) r
  have hfields : ∀ slot ∈ o.slots, record.find? slot.1 = slot.2 := fun slot hslot =>
    hfound slot (hslots hslot)
  simp only [TransformOptions.slots, List.forall_mem_cons] at hfields
  obtain ⟨htrim, hspeedSlot, hresize, hfiltersSlot, haudioSlot, hformat, hquality, -⟩ := hfields
  rw [Record.optional_eq (fun _ _ => TrimOptions.reads _) htrim,
    Record.optional_eq (fun x hx => reads_binary64 (hspeed x hx)) hspeedSlot,
    Record.optional_eq (fun _ _ => ResizeOptions.reads _) hresize,
    Record.withDefault_nil_eq (fun f hf => VideoFilter.reads (hfilters f hf)) hfiltersSlot,
    Record.optional_eq (fun a ha => AudioOptions.reads (haudio a ha)) haudioSlot,
    Record.optional_eq (fun _ _ => Container.reads _) hformat,
    Record.optional_eq (fun _ _ => Quality.reads _) hquality]
  rfl

theorem depth_slots_le (o : TransformOptions) : ∀ slot ∈ o.slots, ∀ j ∈ slot.2, j.depth ≤ 2 := by
  have htrim : ∀ t ∈ o.trim, t.toJson.depth ≤ 2 := fun t _ =>
    t.depth_toJson_le.trans (by decide)
  have hresize : ∀ s ∈ o.resize, s.toJson.depth ≤ 2 := fun s _ =>
    s.depth_toJson_le.trans (by decide)
  have hfilters : ∀ j ∈ nonEmpty VideoFilter.toJson o.filters, j.depth ≤ 2 :=
    depth_nonEmpty_le fun f _ => f.depth_toJson_le
  have haudio : ∀ a ∈ o.audio, a.toJson.depth ≤ 2 := fun a _ =>
    a.depth_toJson_le.trans (by decide)
  simpa [slots, Container.toJson, Quality.toJson] using ⟨htrim, hresize, hfilters, haudio⟩

end TransformOptions

end RenderGateway
