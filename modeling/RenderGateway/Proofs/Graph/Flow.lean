import Mathlib.Algebra.Order.Group.Multiset
import Mathlib.Data.List.Induction
import RenderGateway.Graph.OfPlan

/-!
# The flow of outputs through nodes

A node takes what it reads from the outputs that are still open and opens its
own. `Flows nodes opened final` says that the nodes can do this one after the
other, and which outputs are open before and after. No output is taken twice
and none is lost: `Flows.conserved` is the account of a run, from which follows
where the labels of a graph are read.
-/

namespace RenderGateway.Graph

namespace Pad

/-- The output that a pad reads. -/
def label? : Pad → Option Label
  | output l => some l
  | video _ | audio _ => none

/-- The input file that a pad reads. -/
def file? : Pad → Option Nat
  | video k | audio k => some k
  | output _ => none

end Pad

/-- The outputs that a node reads, in order. -/
def Node.reads (n : Node) : List Label := n.pads.filterMap Pad.label?

/-- Each node takes its reads from the open outputs and opens its label. -/
def Flows : List Node → Multiset Label → Multiset Label → Prop
  | [], opened, final => opened = final
  | n :: rest, opened, final =>
    ∃ kept, opened = n.reads + kept ∧ Flows rest (n.label ::ₘ kept) final

namespace Flows

theorem single (n : Node) : Flows [n] n.reads {n.label} := ⟨0, by simp, rfl⟩

theorem append {xs ys : List Node} {a b c : Multiset Label} (hx : Flows xs a b)
    (hy : Flows ys b c) : Flows (xs ++ ys) a c := by
  induction xs generalizing a with
  | nil =>
    rw [show a = b from hx]
    exact hy
  | cons n rest ih =>
    obtain ⟨kept, rfl, hrest⟩ := hx
    exact ⟨kept, rfl, ih hrest⟩

/-- What the nodes do not read stays open. -/
theorem frame {xs : List Node} {a b : Multiset Label} (h : Flows xs a b) (k : Multiset Label) :
    Flows xs (a + k) (b + k) := by
  induction xs generalizing a with
  | nil => exact congrArg (· + k) h
  | cons n rest ih =>
    obtain ⟨kept, rfl, hrest⟩ := h
    refine ⟨kept + k, add_assoc _ _ _, ?_⟩
    rw [← Multiset.cons_add]
    exact ih hrest

theorem split {xs ys : List Node} {a c : Multiset Label} (h : Flows (xs ++ ys) a c) :
    ∃ b, Flows xs a b ∧ Flows ys b c := by
  induction xs generalizing a with
  | nil => exact ⟨a, rfl, h⟩
  | cons n rest ih =>
    obtain ⟨kept, rfl, hrest⟩ := h
    obtain ⟨b, hxs, hys⟩ := ih hrest
    exact ⟨b, ⟨kept, rfl, hxs⟩, hys⟩

/-- What is open at the end and what was read is what was open at the beginning
and what was written. -/
theorem conserved {xs : List Node} {a b : Multiset Label} (h : Flows xs a b) :
    b + (xs.flatMap Node.reads : List Label) = a + (xs.map Node.label : List Label) := by
  induction xs generalizing a with
  | nil => exact congrArg (· + 0) (Eq.symm h)
  | cons n rest ih =>
    obtain ⟨kept, rfl, hrest⟩ := h
    have hr := ih hrest
    simp only [List.flatMap_cons, List.map_cons, ← Multiset.coe_add, ← Multiset.cons_coe,
      Multiset.cons_add, Multiset.add_cons] at hr ⊢
    rw [add_left_comm, hr, Multiset.add_cons, ← add_assoc]

/-- Nodes that read nothing. -/
theorem sources {xs : List Node} (h : ∀ n ∈ xs, n.reads = []) :
    Flows xs 0 (xs.map Node.label : List Label) := by
  induction xs with
  | nil => rfl
  | cons n rest ih =>
    obtain ⟨hn, hrest⟩ := List.forall_mem_cons.1 h
    refine ⟨0, by simp [hn], ?_⟩
    have hframe := (ih hrest).frame {n.label}
    rw [zero_add, add_comm, Multiset.singleton_add] at hframe
    exact hframe

/-- Steps that each read the label before them and labels of their own. -/
theorem mapIdx {α : Type} {first : Label} {step : Nat → Label} {node : Nat → α → Node}
    {own : α → List Label}
    (hreads : ∀ k a, (node k a).reads = stepInput first step k :: own a)
    (hlabel : ∀ k a, (node k a).label = step k) (items : List α) :
    Flows (items.mapIdx node) (first ::ₘ (items.flatMap own : List Label))
      {stepInput first step items.length} := by
  induction items using List.reverseRecOn with
  | nil => rfl
  | append_singleton items a ih =>
    -- what the last step reads of its own stays open while the others run
    have hlast := single (node items.length a)
    rw [hreads, hlabel] at hlast
    rw [List.mapIdx_concat, List.length_append, List.flatMap_append, List.flatMap_singleton,
      ← Multiset.coe_add, ← Multiset.cons_add]
    refine (ih.frame (own a)).append ?_
    rw [Multiset.singleton_add]
    exact hlast

section Run

variable {nodes before after : List Node} {n : Node} {final : Multiset Label}

/-- A node reads outputs of earlier nodes only. -/
theorem mem_of_mem_reads (h : Flows nodes 0 final) (hn : nodes = before ++ n :: after) {l : Label}
    (hl : l ∈ n.reads) : l ∈ before.map Node.label := by
  rw [hn] at h
  obtain ⟨opened, hbefore, kept, rfl, _⟩ := h.split
  have hc := hbefore.conserved
  rw [zero_add] at hc
  have hmem : l ∈ ((before.map Node.label : List Label) : Multiset Label) := by
    rw [← hc]
    simp [hl]
  exact Multiset.mem_coe.1 hmem

/-- A label is read or open at the end as often as it is written. -/
theorem count_reads (h : Flows nodes 0 final) (l : Label) :
    final.count l + (nodes.flatMap Node.reads).count l = (nodes.map Node.label).count l := by
  have hc := congrArg (Multiset.count l) h.conserved
  simpa using hc

/-- A node does not read its own label or one that is written after it. -/
theorem not_read_before (h : Flows nodes 0 final) (hd : (nodes.map Node.label).Nodup)
    (hn : nodes = before ++ n :: after) : n.label ∉ (before ++ [n]).flatMap Node.reads := by
  intro hl
  obtain ⟨m, hm, hread⟩ := List.mem_flatMap.1 hl
  obtain ⟨start, rest, hsplit⟩ := List.append_of_mem hm
  have hnodes : nodes = start ++ m :: (rest ++ after) := by
    rw [hn, List.append_cons, hsplit]
    simp
  -- the label would be written in `start` and by `n`, which stands behind it
  have hstart : n.label ∈ start.map Node.label := h.mem_of_mem_reads hnodes hread
  have hlast : n ∈ m :: rest := by
    have hg := congrArg List.getLast? hsplit
    rw [List.getLast?_concat, List.getLast?_append_of_ne_nil _ (List.cons_ne_nil m rest)] at hg
    exact List.mem_of_getLast? hg.symm
  rw [hnodes, ← List.cons_append, List.map_append, List.map_append] at hd
  exact (List.nodup_append.1 hd).2.2 _ hstart _
    (List.mem_append_left _ (List.mem_map_of_mem hlast)) rfl

/-- Every label that is not open at the end is read once, by a later node. -/
theorem count_after (h : Flows nodes 0 final) (hd : (nodes.map Node.label).Nodup)
    (hn : nodes = before ++ n :: after) (hfinal : n.label ∉ final) :
    (after.flatMap Node.reads).count n.label = 1 := by
  have hwritten : (nodes.map Node.label).count n.label = 1 :=
    List.count_eq_one_of_mem hd (List.mem_map_of_mem (by simp [hn]))
  have hbefore := List.count_eq_zero.2 (h.not_read_before hd hn)
  have hc := h.count_reads n.label
  rw [hwritten, Multiset.count_eq_zero.2 hfinal, hn, List.append_cons, List.flatMap_append,
    List.count_append, hbefore] at hc
  omega

/-- What is open at the end is written, and read nowhere. -/
theorem final_unread (h : Flows nodes 0 final) (hd : (nodes.map Node.label).Nodup) {l : Label}
    (hl : l ∈ final) : l ∈ nodes.map Node.label ∧ l ∉ nodes.flatMap Node.reads := by
  have hc := h.count_reads l
  have hpos := Multiset.count_pos.2 hl
  have hone := List.nodup_iff_count_le_one.1 hd l
  exact ⟨List.count_pos_iff.1 (by omega), List.count_eq_zero.1 (by omega)⟩

theorem final_nodup (h : Flows nodes 0 final) (hd : (nodes.map Node.label).Nodup) :
    final.Nodup := by
  rw [Multiset.nodup_iff_count_le_one]
  intro l
  have hc := h.count_reads l
  have hone := List.nodup_iff_count_le_one.1 hd l
  omega

end Run

end Flows

end RenderGateway.Graph
