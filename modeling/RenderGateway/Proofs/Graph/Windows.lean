import Mathlib.Algebra.Order.Field.Rat
import Mathlib.Tactic.FieldSimp
import Mathlib.Tactic.NormNum
import RenderGateway.Proofs.Graph.OverlayOptions
import RenderGateway.Proofs.Number.Digits

/-!
# Windows as they are read

An encoder reads the times in the text of a filter again. A filter with an enable option acts while
the value of its expression is not zero; the value is a product of comparisons of the time with a
number, each one or zero. A trim takes what lies between the numbers of two of its options. All
three kinds of windows are read as they are meant, to the millisecond, if their ends can be written:
the least word cannot, as it has no magnitude.
-/

namespace RenderGateway

namespace Decimal

/-- The number that a decimal stands for. -/
def toRat (d : Decimal) : ℚ :=
  (if d.negative then -1 else 1) * (d.coefficient * (10 : ℚ) ^ d.exponent)

end Decimal

namespace Graph

open Numeral

/-- The number that a text writes. -/
def number? : List Char → Option ℚ
  | '-' :: cs => (Decimal.unsignedOfChars? true cs).map Decimal.toRat
  | cs => (Decimal.unsignedOfChars? false cs).map Decimal.toRat

/-- The number in front of the bracket that ends a text. -/
def closedNumber? (cs : List Char) : Option ℚ :=
  if cs.getLast? = some ')' then number? cs.dropLast else none

/-- Whether a comparison holds at a time. -/
def comparisonAt? (t : ℚ) : List Char → Option Bool
  | 'g' :: 't' :: 'e' :: '(' :: 't' :: ',' :: cs => (closedNumber? cs).map fun x => decide (x ≤ t)
  | 'l' :: 't' :: '(' :: 't' :: ',' :: cs => (closedNumber? cs).map fun x => decide (t < x)
  | _ => none

/-- Whether a product of comparisons is not zero at a time. -/
def productAt? (t : ℚ) (expression : String) : Option Bool :=
  ((expression.toList.splitOn '*').mapM (comparisonAt? t)).map fun factors => factors.all id

/-- The value of the last option of a name. -/
def lastOption? (key : String) (filter : String) : Option String :=
  (readOptions filter).reverse.lookup key

/-- Whether a filter acts at a time in seconds. -/
def actsAt? (t : ℚ) (filter : String) : Option Bool :=
  match lastOption? "enable" filter with
  | some expression => productAt? t expression
  | none => some true

/-- The times in seconds between which a filter cuts. -/
def cut? (filter : String) : Option (ℚ × ℚ) :=
  ((lastOption? "start" filter).bind fun s => number? s.toList).bind fun start =>
    ((lastOption? "end" filter).bind fun s => number? s.toList).map fun stop => (start, stop)

/-- A time with a magnitude, as every word but the least one is. -/
def Writable (ms : Int) : Prop := ms ≠ Int64.minValue.toInt

instance (ms : Int) : Decidable (Writable ms) := by unfold Writable; infer_instance

theorem Writable.of_nonneg {ms : Int} (h : 0 ≤ ms) : Writable ms := by
  have hleast : Int64.minValue.toInt < 0 := by decide
  unfold Writable
  omega

/-- The expression of a window of time, which is not zero from its start on and before its end. -/
def windowText (start stop : Int) : String :=
  "gte(t," ++ seconds start ++ ")*lt(t," ++ seconds stop ++ ")"

/-- The filter is enabled by the expression of a window. -/
def Enabled (start stop : Int) (filter : String) : Prop :=
  lastOption? "enable" filter = some (windowText start stop)

/-- The filter acts from one time on and before another, in milliseconds. -/
def ActsWithin (start stop : Int) (filter : String) : Prop :=
  ∀ t, actsAt? t filter = some (decide ((start : ℚ) / 1000 ≤ t ∧ t < (stop : ℚ) / 1000))

section

/-- Digits on both sides of a point. -/
theorem unsignedOfChars?_point (negative : Bool) (whole : Nat) {ds : List Char}
    (h : ∀ c ∈ ds, c.isDigit = true) :
    Decimal.unsignedOfChars? negative (digits whole ++ '.' :: ds) =
      some ⟨negative, 10 ^ ds.length * whole + value ds, -ds.length⟩ := by
  have hfraction : ds.span Char.isDigit = (ds, []) := by
    have hspan := @span_of_isDigit ds [] h nofun
    rwa [List.append_nil] at hspan
  have hpoint : ∀ c ∈ ('.' :: ds).head?, c.isDigit = false := by
    rintro c ⟨⟩
    rfl
  simp only [Decimal.unsignedOfChars?, span_digits whole hpoint, hfraction, digits_ne_nil,
    false_and, if_false, Decimal.exponentOfChars?, Option.map_some, Decimal.ofParts, value_append,
    value_digits]
  simp

theorem unsignedOfChars?_places (negative : Bool) (whole : Nat) {width fraction : Nat}
    (hwidth : 0 < width) (h : fraction < 10 ^ width) :
    Decimal.unsignedOfChars? negative (digits whole ++ '.' :: padded width fraction) =
      some ⟨negative, 10 ^ width * whole + fraction, -width⟩ := by
  rw [unsignedOfChars?_point negative whole fun _ => isDigit_of_mem_padded, value_padded,
    length_padded hwidth h]

/-- A minus in front of digits is the sign of what they write. -/
theorem number?_signed (negative : Bool) (n : Nat) (tail : List Char) :
    number? ((if negative then ['-'] else []) ++ digits n ++ tail) =
      (Decimal.unsignedOfChars? negative (digits n ++ tail)).map Decimal.toRat := by
  cases negative with
  | true => rfl
  | false =>
    obtain ⟨c, cs, hcs, hc⟩ := exists_digits_append n tail
    rw [if_neg Bool.false_ne_true, List.nil_append, hcs]
    unfold number?
    split
    · next heq =>
      rw [(List.cons.inj heq).1] at hc
      cases hc
    · rfl

theorem toRat_thousandths (negative : Bool) (n : Nat) :
    Decimal.toRat ⟨negative, n, -(3 : Nat)⟩ = (if negative then -1 else 1) * ((n : ℚ) / 1000) := by
  norm_num [Decimal.toRat, zpow_neg, div_eq_mul_inv]

theorem thousandth_lt_iff {start stop : Int} :
    (start : ℚ) / 1000 < (stop : ℚ) / 1000 ↔ start < stop := by
  rw [div_lt_div_iff_of_pos_right (by norm_num), Int.cast_lt]

/-- A time is read as it was written. -/
theorem number?_seconds {ms : Int} (h : Writable ms) :
    number? (seconds ms).toList = some ((ms : ℚ) / 1000) := by
  have hread (negative : Bool) : Decimal.unsignedOfChars? negative
      (digits (ms.natAbs / 1000) ++ '.' :: padded 3 (ms.natAbs % 1000)) =
        some ⟨negative, ms.natAbs, -(3 : Nat)⟩ := by
    have hplaces := unsignedOfChars?_places negative (ms.natAbs / 1000) (by decide : 0 < 3)
      (Nat.mod_lt ms.natAbs (by decide : 0 < 1000))
    rwa [Nat.div_add_mod ms.natAbs 1000] at hplaces
  have hsign : (if ms < 0 then ['-'] else []) = if decide (ms < 0) then ['-'] else [] := by
    by_cases hneg : ms < 0 <;> simp [hneg]
  rw [seconds_eq h, String.toList_ofList, hsign, number?_signed, hread, Option.map_some,
    toRat_thousandths]
  by_cases hneg : ms < 0
  · have habs : (ms.natAbs : ℚ) = -ms := by
      rw [Nat.cast_natAbs, abs_of_neg hneg, Int.cast_neg]
    rw [if_pos (decide_eq_true hneg), habs, neg_div, neg_one_mul, neg_neg]
  · have habs : (ms.natAbs : ℚ) = ms := by
      rw [Nat.cast_natAbs, abs_of_nonneg (not_lt.1 hneg)]
    rw [if_neg (by simpa using hneg), habs, one_mul]

/-- What is written for the least word is no number. -/
theorem number?_seconds_least : number? (seconds Int64.minValue.toInt).toList = none := by
  rw [seconds_least]
  decide +kernel

/-- A text stands for one time. -/
theorem seconds_injective : Function.Injective seconds := by
  intro a b h
  by_cases ha : Writable a
  · have hread := number?_seconds ha
    rw [h] at hread
    have hb : Writable b := by
      rintro rfl
      rw [number?_seconds_least] at hread
      cases hread
    rw [number?_seconds hb, Option.some.injEq, div_left_inj' (by norm_num), Int.cast_inj] at hread
    exact hread.symm
  · by_cases hb : Writable b
    · have hread := number?_seconds hb
      rw [← h, not_not.1 ha, number?_seconds_least] at hread
      cases hread
    · exact (not_not.1 ha).trans (not_not.1 hb).symm

theorem closedNumber?_seconds (ms : Int) :
    closedNumber? ((seconds ms).toList ++ [')']) = number? (seconds ms).toList := by
  rw [closedNumber?, List.getLast?_concat, if_pos rfl, List.dropLast_concat]

/-- The expression of a window is the product of two comparisons. -/
theorem splitOn_window (start stop : Int) :
    (windowText start stop).toList.splitOn '*' =
      ["gte(t,".toList ++ ((seconds start).toList ++ [')']),
        "lt(t,".toList ++ ((seconds stop).toList ++ [')'])] := by
  have hstar (ms : Int) : '*' ∉ (seconds ms).toList :=
    (isNumberText_seconds ms).not_mem (by decide)
  have hsplit : (windowText start stop).toList =
      ("gte(t,".toList ++ ((seconds start).toList ++ [')'])) ++
        '*' :: ("lt(t,".toList ++ ((seconds stop).toList ++ [')'])) := by
    simp [windowText]
  have hleft : '*' ∉ "gte(t,".toList ++ ((seconds start).toList ++ [')']) := by
    simp [hstar]
  have hright : '*' ∉ "lt(t,".toList ++ ((seconds stop).toList ++ [')']) := by
    simp [hstar]
  rw [hsplit, List.splitOn_append_cons_self, List.splitOn_eq_singleton hleft,
    List.splitOn_eq_singleton hright, List.singleton_append]

theorem windowText_inj {a b c d : Int} : windowText a b = windowText c d ↔ a = c ∧ b = d := by
  constructor
  · intro h
    have hparts := congrArg (fun s : String => s.toList.splitOn '*') h
    simp only [splitOn_window, List.cons.injEq, List.append_cancel_left_eq,
      List.append_cancel_right_eq, and_true] at hparts
    exact ⟨seconds_injective (String.toList_inj.1 hparts.1),
      seconds_injective (String.toList_inj.1 hparts.2)⟩
  · rintro ⟨rfl, rfl⟩
    rfl

/-- The expression of a window is not zero from its start on and before its end. -/
theorem productAt?_window (t : ℚ) {start stop : Int} (hstart : Writable start)
    (hstop : Writable stop) :
    productAt? t (windowText start stop) =
      some (decide ((start : ℚ) / 1000 ≤ t ∧ t < (stop : ℚ) / 1000)) := by
  have hfrom : comparisonAt? t ("gte(t,".toList ++ ((seconds start).toList ++ [')'])) =
      some (decide ((start : ℚ) / 1000 ≤ t)) := by
    change (closedNumber? ((seconds start).toList ++ [')'])).map _ = _
    rw [closedNumber?_seconds, number?_seconds hstart, Option.map_some]
  have huntil : comparisonAt? t ("lt(t,".toList ++ ((seconds stop).toList ++ [')'])) =
      some (decide (t < (stop : ℚ) / 1000)) := by
    change (closedNumber? ((seconds stop).toList ++ [')'])).map _ = _
    rw [closedNumber?_seconds, number?_seconds hstop, Option.map_some]
  rw [productAt?, splitOn_window, List.mapM_cons, hfrom, List.mapM_cons, huntil]
  simp

/-! ### The filters with windows -/

/-- The last option of a filter is the one that counts. -/
theorem lastOption?_of_readOptions {filter key value : String} {options : List (String × String)}
    (h : readOptions filter = options ++ [(key, value)]) : lastOption? key filter = some value := by
  rw [lastOption?, h, List.reverse_append, List.reverse_singleton, List.singleton_append,
    List.lookup_cons_self]

/-- The window of an enabled filter is the one in its text. -/
theorem Enabled.inj {filter : String} {a b c d : Int} (h : Enabled a b filter)
    (h' : Enabled c d filter) : a = c ∧ b = d :=
  windowText_inj.1 (Option.some.inj (h.symm.trans h'))

theorem Enabled.actsWithin {filter : String} {start stop : Int} (h : Enabled start stop filter)
    (hstart : Writable start) (hstop : Writable stop) : ActsWithin start stop filter := by
  intro t
  rw [actsAt?, h]
  exact productAt?_window t hstart hstop

/-- The text of a filter of two options. -/
theorem text_of_pair (name : String) (o o' : FilterOption) :
    name ++ "=" ++ ":".intercalate ([o, o'].map FilterOption.text) =
      name ++ "=" ++ o.text ++ ":" ++ o'.text := by
  simp [String.append_assoc]

/-- A filter of two options whose values stand for themselves. -/
theorem readOptions_pair {name : String} {o o' : FilterOption} (hname : '=' ∉ name.toList)
    {read : List (String × String)} (h : ReadAs [o, o'] read) (hcontained : o.Contained)
    (hcontained' : o'.Contained) :
    readOptions (name ++ "=" ++ o.text ++ ":" ++ o'.text) = read := by
  rw [← text_of_pair]
  refine h.readOptions_eq (List.cons_ne_nil _ _) ?_ hname
  simp only [List.forall_mem_cons]
  exact ⟨hcontained, hcontained', fun _ h => absurd h List.not_mem_nil⟩

theorem readOptions_overlay (start stop : Int) : readOptions (Filter.overlay start stop).text =
    [("eof_action", "pass")] ++
      [("enable", "gte(t," ++ seconds start ++ ")*lt(t," ++ seconds stop ++ ")")] := by
  have hpass : ReadAs [⟨"eof_action", .bare "pass"⟩] [("eof_action", "pass")] :=
    .literal (by decide) (by decide)
  have htext : (Filter.overlay start stop).text = "overlay" ++ "=" ++
      FilterOption.text ⟨"eof_action", .bare "pass"⟩ ++ ":" ++ (enableOption start stop).text := by
    have hfront : "overlay=eof_action=pass:" =
        "overlay" ++ "=" ++ FilterOption.text ⟨"eof_action", .bare "pass"⟩ ++ ":" := by decide
    rw [← hfront]
    rfl
  rw [htext]
  exact readOptions_pair (by decide) (hpass.append (readAs_enable start stop))
    ⟨by decide, (by decide : Plain "pass")⟩ (contained_enableOption start stop)

/-- A picture is laid over another within its window. -/
theorem enabled_overlay (start stop : Int) : Enabled start stop (Filter.overlay start stop).text :=
  lastOption?_of_readOptions (readOptions_overlay start stop)

/-- A text is drawn within its window, whatever its position and its font are. -/
theorem enabled_drawText {o : TextOverlay} (h : o.SyntaxValid) :
    Enabled o.timelineStart.toInt o.timelineEnd.toInt (Filter.drawText o).text :=
  lastOption?_of_readOptions (TextOverlay.readOptions_drawText h)

/-! ### Cuts -/

theorem lastOption?_optionText {name : String} (hname : '=' ∉ name.toList)
    {pairs : List (String × String)} (hne : pairs ≠ []) (h : ∀ o ∈ pairs, ReadsBack o)
    (key : String) : lastOption? key (optionText name pairs) = pairs.reverse.lookup key := by
  rw [lastOption?, readOptions_optionText hname hne h]

/-- The two ends of a cut are read as they are written. -/
theorem readsBack_ends (start stop : Int) :
    ∀ o ∈ [("start", seconds start), ("end", seconds stop)], ReadsBack o := by
  simp only [List.forall_mem_cons]
  exact ⟨readsBack_seconds (by decide) _, readsBack_seconds (by decide) _, nofun⟩

theorem text_trim (start stop : Int) : (Filter.trim start stop).text =
    optionText "trim" [("start", seconds start), ("end", seconds stop)] := by
  change "trim=start=" ++ seconds start ++ ":end=" ++ seconds stop = _
  apply String.toList_inj.1
  simp [optionText]

theorem text_audioTrim (start stop : Int) : (Filter.audioTrim start stop).text =
    optionText "atrim" [("start", seconds start), ("end", seconds stop)] := by
  change "atrim=start=" ++ seconds start ++ ":end=" ++ seconds stop = _
  apply String.toList_inj.1
  simp [optionText]

/-- The options of a trim are read as the window that it takes. -/
theorem cut?_ends {name : String} (hname : '=' ∉ name.toList) {start stop : Int}
    (hstart : Writable start) (hstop : Writable stop) :
    cut? (optionText name [("start", seconds start), ("end", seconds stop)]) =
      some ((start : ℚ) / 1000, (stop : ℚ) / 1000) := by
  have hread := lastOption?_optionText hname (List.cons_ne_nil _ _) (readsBack_ends start stop)
  rw [cut?, hread, hread]
  change (number? (seconds start).toList).bind (fun a =>
    (number? (seconds stop).toList).map fun b => (a, b)) = _
  rw [number?_seconds hstart, number?_seconds hstop]
  rfl

end

end Graph

end RenderGateway
