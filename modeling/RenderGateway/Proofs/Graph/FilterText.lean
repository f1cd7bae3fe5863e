import RenderGateway.Graph.Filter
import RenderGateway.Proofs.Graph.NumberText
import RenderGateway.Proofs.Graph.Spans

/-!
# Filters in text

The numbers and names in the text of a filter are plain: they hold no quote and
no character that delimits nodes, filters or labels. What comes from a plan as
text stands in a span. `Filter.text_sealed` puts this together: outside its
spans no filter has a delimiter.
-/

namespace RenderGateway

namespace Graph

/-- The characters that end a node, a filter or a label, or begin a label. -/
def delimiters : List Char := ['[', ']', ',', ';']

/-- Text that the encoder takes as it stands. -/
def Plain (s : String) : Prop := ∀ c ∈ s.toList, c ∉ '\'' :: delimiters

instance (s : String) : Decidable (Plain s) :=
  List.decidableBAll (fun c => c ∉ '\'' :: delimiters) s.toList

/-- Text with closed spans and none of some characters outside them. -/
structure Sealed (banned : List Char) (s : String) : Prop where
  balanced : Balanced s
  outside_not_mem : ∀ c ∈ banned, c ∉ (outside s).toList

namespace Sealed

variable {banned : List Char}

theorem of_not_mem {s : String} (hquote : '\'' ∉ s.toList) (h : ∀ c ∈ banned, c ∉ s.toList) :
    Sealed banned s where
  balanced := .of_not_mem hquote
  outside_not_mem := by rwa [outside_of_not_mem hquote]

theorem mono {s : String} {fewer : List Char} (h : Sealed banned s) (hsub : fewer ⊆ banned) :
    Sealed fewer s where
  balanced := h.balanced
  outside_not_mem := fun c hc => h.outside_not_mem c (hsub hc)

theorem append {s t : String} (hs : Sealed banned s) (ht : Sealed banned t) :
    Sealed banned (s ++ t) where
  balanced := hs.balanced.append ht.balanced
  outside_not_mem := fun c hc => by
    rw [hs.balanced.outside_append, String.toList_append, List.mem_append, not_or]
    exact ⟨hs.outside_not_mem c hc, ht.outside_not_mem c hc⟩

theorem intercalate {sep : String} (hsep : Sealed banned sep) {parts : List String}
    (h : ∀ s ∈ parts, Sealed banned s) : Sealed banned (sep.intercalate parts) :=
  intercalate_of_append (.of_not_mem (by decide) fun _ _ => by simp) (fun _ _ => append) hsep h

end Sealed

namespace Plain

theorem append_iff {s t : String} : Plain (s ++ t) ↔ Plain s ∧ Plain t := by
  simp only [Plain, String.toList_append, List.forall_mem_append]

theorem quote_not_mem {s : String} (h : Plain s) : '\'' ∉ s.toList :=
  fun hmem => h _ hmem List.mem_cons_self

theorem toSealed {s : String} (h : Plain s) : Sealed delimiters s :=
  .of_not_mem h.quote_not_mem fun c hc hmem => h c hmem (List.mem_cons_of_mem _ hc)

end Plain

theorem IsNumberText.toPlain {s : String} (h : IsNumberText s) : Plain s :=
  fun _ hmem hc => h.not_mem_of_all (by decide) hc hmem

theorem plain_seconds (ms : Int) : Plain (seconds ms) := (isNumberText_seconds ms).toPlain

theorem plain_factor (x : Binary64) : Plain (factor x) := (isNumberText_factor x).toPlain

theorem plain_nat (n : Nat) : Plain (toString n) := (isNumberText_nat n).toPlain

theorem plain_uint32 (n : UInt32) : Plain (toString n) := (isNumberText_uint32 n).toPlain

theorem plain_int (n : Int) : Plain (toString n) := (isNumberText_int n).toPlain

namespace OptionValue

/-- Values that leave the spans of a text as they are. -/
def Contained : OptionValue → Prop
  | bare s => Plain s
  | quoted s => '\'' ∉ s.toList

/-- What of a value stands outside a span. -/
def bareText : OptionValue → String
  | bare s => s
  | quoted _ => ""

theorem Contained.sealed {v : OptionValue} (h : v.Contained) : Sealed delimiters v.text := by
  cases v with
  | bare s => exact Plain.toSealed h
  | quoted s =>
    refine ⟨balanced_quoted h, fun c _ => ?_⟩
    rw [text, outside_quoted h]
    simp

theorem Contained.outside_text {v : OptionValue} (h : v.Contained) :
    outside v.text = v.bareText := by
  cases v with
  | bare s => exact outside_of_not_mem (Plain.quote_not_mem h)
  | quoted s => exact outside_quoted h

end OptionValue

/-- Options with a plain key and a contained value. -/
structure FilterOption.Contained (o : FilterOption) : Prop where
  key : Plain o.key
  value : o.value.Contained

/-- What of an option stands outside a span. -/
def FilterOption.bareText (o : FilterOption) : String := o.key ++ "=" ++ o.value.bareText

theorem FilterOption.Contained.sealed {o : FilterOption} (h : o.Contained) :
    Sealed delimiters o.text :=
  (h.key.toSealed.append (by decide : Plain "=").toSealed).append h.value.sealed

theorem FilterOption.Contained.outside_text {o : FilterOption} (h : o.Contained) :
    outside o.text = o.bareText := by
  have hkey : Plain (o.key ++ "=") := Plain.append_iff.2 ⟨h.key, by decide⟩
  rw [text, bareText, hkey.toSealed.balanced.outside_append, outside_of_not_mem hkey.quote_not_mem,
    h.value.outside_text]

theorem quote_not_mem_escapeText (s : String) : '\'' ∉ (escapeText s).toList := by
  intro h
  rw [escapeText, String.toList_ofList, List.mem_flatMap] at h
  obtain ⟨c, _, hc⟩ := h
  unfold escapedChar at hc
  split_ifs at hc with _ hquote
  · simp at hc
  · simp at hc
  · simp at hc
  · simp at hc
  · exact hquote (List.mem_singleton.1 hc).symm

theorem contained_quotedExpression (s : String) : (quotedExpression s).Contained := by
  intro h
  rw [String.toList_ofList, List.mem_filter] at h
  simp at h

theorem contained_enableOption (start stop : Int) : (enableOption start stop).Contained := by
  refine ⟨(by decide : Plain "enable"), ?_⟩
  change '\'' ∉ ("gte(t," ++ seconds start ++ ")*lt(t," ++ seconds stop ++ ")").toList
  simp only [String.toList_append, List.mem_append, not_or]
  exact ⟨⟨⟨⟨by decide, (plain_seconds start).quote_not_mem⟩, by decide⟩,
    (plain_seconds stop).quote_not_mem⟩, by decide⟩

end Graph

namespace TextOverlay

open RenderGateway.Graph

theorem contained_options (o : TextOverlay) : ∀ option ∈ o.options, option.Contained := by
  have hexpression {key : String} (hkey : Plain key) (s : String) :
      FilterOption.Contained ⟨key, quotedExpression s⟩ := ⟨hkey, contained_quotedExpression s⟩
  have hbare {key s : String} (hkey : Plain key) (hs : Plain s) :
      FilterOption.Contained ⟨key, .bare s⟩ := ⟨hkey, hs⟩
  have hnil : ∀ option ∈ ([] : List FilterOption), option.Contained :=
    fun _ h => absurd h List.not_mem_nil
  have hbackground (b : TextBackground) : ∀ option ∈ b.options, option.Contained := by
    unfold TextBackground.options
    simp only [List.forall_mem_cons]
    exact ⟨hbare (by decide) (by decide), hexpression (by decide) _,
      hbare (by decide) (plain_uint32 _), hnil⟩
  unfold options
  simp only [List.forall_mem_append, List.forall_mem_cons]
  refine ⟨⟨⟨⟨⟨⟨(by decide : Plain "text"), quote_not_mem_escapeText _⟩,
      hbare (by decide) (by decide), hnil⟩, ?font⟩,
    hbare (by decide) (plain_uint32 _), hexpression (by decide) _, hexpression (by decide) _,
      hexpression (by decide) _, hnil⟩, ?background⟩, contained_enableOption _ _, hnil⟩
  case font =>
    cases o.fontFile with
    | none => exact hnil
    | some font => exact List.forall_mem_singleton.2 (hexpression (by decide) font)
  case background =>
    cases o.background with
    | none => exact hnil
    | some b => exact hbackground b

end TextOverlay

namespace Graph

theorem sealed_drawText (o : TextOverlay) : Sealed delimiters o.drawText := by
  have hname : Plain "drawtext=" := by decide
  have hcolon : Plain ":" := by decide
  refine hname.toSealed.append (.intercalate hcolon.toSealed ?_)
  intro s hs
  obtain ⟨option, hoption, rfl⟩ := List.mem_map.1 hs
  exact (o.contained_options option hoption).sealed

theorem Filter.sealed_text (f : Filter) : Sealed delimiters f.text := by
  cases f with
  | drawText caption => exact sealed_drawText caption
  | overlay start stop =>
    exact (by decide +kernel : Plain "overlay=eof_action=pass:").toSealed.append
      (contained_enableOption start stop).sealed
  | effect filter =>
    apply Plain.toSealed
    change Plain filter.expression
    cases filter <;>
    · delta VideoFilter.expression
      simp only [Plain.append_iff, plain_factor, and_true]
      decide +kernel
  | retime speed shift =>
    apply Plain.toSealed
    change Plain ("setpts=" ++ clockText speed shift)
    cases speed <;> cases shift <;>
    · delta clockText
      simp only [Plain.append_iff, plain_factor, plain_seconds, and_true]
      decide +kernel
  | trim | fit | pad | squarePixels | frameRate | fadeIn | concat | audioTrim | audioRestart
  | audioFormat | tempo | volume | audioFadeIn | audioFadeOut | delay | silence | mix | audioPad
  | audioEnd =>
    apply Plain.toSealed
    delta text
    simp only [sizeText, Plain.append_iff, plain_seconds, plain_factor, plain_nat, plain_uint32,
      plain_int, true_and, and_true]
    decide +kernel

end Graph

end RenderGateway
