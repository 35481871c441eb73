/-
The samples of a document and the entries they stand for.

A document lists the entries of its snapshot the heaviest first, and entries of one weight as
the snapshot has them (`RanksByWeight`).  Of every list there is just one such order.

Without registered names a sample says all that there is to say about its entry: null, the
name of memory reclamation and the numbers stand for different frames.
-/
import SamplingProfiler.Document.Basic

namespace SamplingProfiler

/-! ### The order of the samples

`RanksByWeight` says nothing of how a list is sorted.  But it leaves no choice, so all that is to be
known of the order follows from `RanksByWeight.unique`, and the sort itself is not looked at again.
-/

/-- The entries in descending order of weight, those of one weight in the order they had. -/
structure RanksByWeight (ranked entries : List Entry) : Prop where
  perm : ranked.Perm entries
  descending : ranked.Pairwise fun a b => b.weight.val ≤ a.weight.val
  stable : ∀ w, ranked.filter (·.weight = w) = entries.filter (·.weight = w)

theorem ranksByWeight_byWeight (entries : List Entry) :
    RanksByWeight (byWeight entries) entries := by
  let heavier (a b : Entry) : Bool := b.weight.val ≤ a.weight.val
  have htrans : ∀ a b c, heavier a b = true → heavier b c = true → heavier a c = true := by
    intro a b c hab hbc
    simp only [heavier, decide_eq_true_eq] at hab hbc ⊢
    omega
  have htotal : ∀ a b, (heavier a b || heavier b a) = true := by
    intro a b
    simp only [heavier, Bool.or_eq_true, decide_eq_true_eq]
    omega
  have hperm : (byWeight entries).Perm entries := entries.mergeSort_perm heavier
  refine ⟨hperm, ?_, fun w => ?_⟩
  · refine (List.pairwise_mergeSort htrans htotal entries).imp fun h => ?_
    simpa only [heavier, decide_eq_true_eq] using h
  · -- the entries of one weight are in order already, so the sort keeps them as they are
    have hsame : (entries.filter (·.weight = w)).Pairwise fun a b => heavier a b = true := by
      refine List.pairwise_of_forall_mem_list fun a ha b hb => ?_
      simp only [List.mem_filter, decide_eq_true_eq] at ha hb
      simp only [heavier, decide_eq_true_eq, ha.2, hb.2, Nat.le_refl]
    have hsub := (List.sublist_mergeSort htrans htotal hsame List.filter_sublist).filter
      (·.weight = w)
    rw [List.filter_filter] at hsub
    simp only [Bool.and_self] at hsub
    exact (hsub.eq_of_length (hperm.filter _).length_eq.symm).symm

/-- A list in descending order is known by its entries of each weight: the first entry is the
first of those that weigh the most. -/
private theorem eq_of_descending {xs ys : List Entry}
    (hxs : xs.Pairwise fun a b => b.weight.val ≤ a.weight.val)
    (hys : ys.Pairwise fun a b => b.weight.val ≤ a.weight.val)
    (h : ∀ w, xs.filter (·.weight = w) = ys.filter (·.weight = w)) : xs = ys := by
  have hmem : ∀ {xs ys : List Entry},
      (∀ w, xs.filter (·.weight = w) = ys.filter (·.weight = w)) → ∀ e ∈ xs, e ∈ ys := by
    intro xs ys h e he
    have hfilter : e ∈ xs.filter (·.weight = e.weight) := List.mem_filter.mpr ⟨he, by simp⟩
    rw [h] at hfilter
    exact (List.mem_filter.mp hfilter).1
  induction xs generalizing ys with
  | nil => exact (List.eq_nil_iff_forall_not_mem.mpr fun e he =>
      List.not_mem_nil (hmem (fun w => (h w).symm) e he)).symm
  | cons x xs ih =>
      cases ys with
      | nil => exact absurd (hmem h x List.mem_cons_self) List.not_mem_nil
      | cons y ys =>
          rw [List.pairwise_cons] at hxs hys
          have hweight : x.weight = y.weight := by
            have hx := hmem h x List.mem_cons_self
            have hy := hmem (fun w => (h w).symm) y List.mem_cons_self
            rcases List.mem_cons.mp hx with heq | hx
            · rw [heq]
            rcases List.mem_cons.mp hy with heq | hy
            · rw [heq]
            exact Weight.ext (Nat.le_antisymm (hys.1 x hx) (hxs.1 y hy))
          have hfirst := h x.weight
          rw [List.filter_cons_of_pos (by simp), List.filter_cons_of_pos (by simp [hweight])] at hfirst
          obtain ⟨rfl, -⟩ := List.cons.inj hfirst
          have hrest : ∀ w, xs.filter (·.weight = w) = ys.filter (·.weight = w) := by
            intro w
            have hw := h w
            rw [List.filter_cons, List.filter_cons] at hw
            split at hw
            · exact (List.cons.inj hw).2
            · exact hw
          rw [ih hxs.2 hys.2 hrest]

theorem RanksByWeight.unique {xs ys entries : List Entry} (hxs : RanksByWeight xs entries)
    (hys : RanksByWeight ys entries) : xs = ys :=
  eq_of_descending hxs.descending hys.descending fun w => (hxs.stable w).trans (hys.stable w).symm

/-- It does not matter whether entries are left out before or after they are ranked. -/
theorem byWeight_filter (p : Entry → Bool) (entries : List Entry) :
    byWeight (entries.filter p) = (byWeight entries).filter p := by
  have h := ranksByWeight_byWeight entries
  refine (ranksByWeight_byWeight (entries.filter p)).unique
    ⟨h.perm.filter p, h.descending.filter p, fun w => ?_⟩
  have hcomm : ∀ es : List Entry,
      (es.filter p).filter (·.weight = w) = (es.filter (·.weight = w)).filter p := by
    intro es
    simp only [List.filter_filter, Bool.and_comm]
  rw [hcomm, hcomm, h.stable w]

/-! ### Samples without names -/

/-- The frame that a label stands for, where no names are registered. -/
def FrameLabel.frame? : Option FrameLabel → Option FrameId
  | none => some FrameId.null
  | some (.id frame) => some frame
  | some (.name text) => if text = gcFrameName then some FrameId.gc else none

/-- The entry that a sample stands for, where no names are registered. -/
def Sample.asEntry (s : Sample) : Option Entry :=
  (s.frames.mapM FrameLabel.frame?).map fun frames => ⟨frames, s.weight⟩

namespace Exporter

theorem mapM_map_of_eq_some {α β : Type} {f : α → β} {g : β → Option α}
    (h : ∀ a, g (f a) = some a) (as : List α) : (as.map f).mapM g = some as := by
  have hpure : g ∘ f = fun a => pure (id a) := funext h
  rw [List.mapM_map, hpure, List.mapM_pure, List.map_id]
  rfl

theorem frame?_label (frame : FrameId) : FrameLabel.frame? (nameless.label frame) = some frame := by
  unfold label
  by_cases hnull : frame = FrameId.null
  · rw [if_pos hnull, hnull]
    rfl
  by_cases hgc : frame = FrameId.gc
  · rw [if_neg hnull, if_pos hgc, hgc]
    rfl
  · rw [if_neg hnull, if_neg hgc]
    rfl

theorem asEntry_sample (e : Entry) : (nameless.sample e).asEntry = some e := by
  unfold Sample.asEntry sample
  rw [mapM_map_of_eq_some frame?_label]
  rfl

/-- The samples of a document without names stand for the entries it was made of. -/
theorem mapM_asEntry_document (s : Snapshot) :
    (nameless.document s).samples.mapM Sample.asEntry = some (byWeight s.entries) :=
  mapM_map_of_eq_some asEntry_sample _

end Exporter

end SamplingProfiler
