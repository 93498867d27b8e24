import Mathlib.Data.List.Sort

/-! Sorting by a key leaves the elements of each key as they were. -/

namespace Seq
variable {α κ : Type} [LinearOrder κ] {key : α → κ}

def sortBy (key : α → κ) (xs : List α) : List α := xs.insertionSort fun a b => key a ≤ key b

theorem sortBy_perm (xs : List α) : (sortBy key xs).Perm xs := List.perm_insertionSort _ xs

theorem sortBy_pairwise (xs : List α) : (sortBy key xs).Pairwise fun a b => key a ≤ key b :=
  have : Std.Total fun a b : α => key a ≤ key b := ⟨fun a b => le_total (key a) (key b)⟩
  have : IsTrans α fun a b => key a ≤ key b := ⟨fun _ _ _ => le_trans⟩
  List.pairwise_insertionSort _ xs

theorem filter_orderedInsert (p : α → Bool) (a : α) {xs : List α}
    (h : xs.Pairwise fun a b => key a ≤ key b) :
    (xs.orderedInsert (fun a b => key a ≤ key b) a).filter p =
      if p a then (xs.filter p).orderedInsert (fun a b => key a ≤ key b) a else xs.filter p := by
  induction xs with
  | nil => simp [List.filter_cons]
  | cons x xs ih =>
    obtain ⟨hx, hxs⟩ := List.pairwise_cons.1 h
    by_cases hax : key a ≤ key x
    · -- `a` is below all that is left, so also below the first that `p` keeps
      rw [List.orderedInsert_cons, if_pos hax, List.filter_cons]
      split
      · cases hf : (x :: xs).filter p with
        | nil => rfl
        | cons y ys =>
          have hy : y ∈ x :: xs := List.mem_of_mem_filter (hf ▸ List.mem_cons_self)
          have hay : key a ≤ key y := by
            rcases List.mem_cons.1 hy with rfl | hy
            · exact hax
            · exact hax.trans (hx y hy)
          rw [List.orderedInsert_cons, if_pos hay]
      · rfl
    · rw [List.orderedInsert_cons, if_neg hax, List.filter_cons, ih hxs, List.filter_cons]
      by_cases hpx : p x = true
      · simp only [hpx, if_true]
        split
        · rw [List.orderedInsert_cons, if_neg hax]
        · rfl
      · simp only [hpx, if_false, Bool.false_eq_true]

theorem sortBy_filter (p : α → Bool) (xs : List α) :
    sortBy key (xs.filter p) = (sortBy key xs).filter p := by
  induction xs with
  | nil => rfl
  | cons x xs ih =>
    have hcons :
        sortBy key (x :: xs) = (sortBy key xs).orderedInsert (fun a b => key a ≤ key b) x :=
      List.insertionSort_cons ..
    rw [hcons, filter_orderedInsert p x (sortBy_pairwise xs), List.filter_cons, ← ih]
    split
    · exact List.insertionSort_cons ..
    · rfl

theorem filter_sortBy (k : κ) (xs : List α) :
    (sortBy key xs).filter (fun a => key a = k) = xs.filter fun a => key a = k := by
  have hk : ∀ a ∈ xs.filter fun a => key a = k, key a = k := fun a ha => by
    simpa using (List.mem_filter.1 ha).2
  rw [← sortBy_filter]
  refine List.Pairwise.insertionSort_eq (List.pairwise_iff_forall_sublist.2 fun {a b} hab => ?_)
  exact ((hk a (hab.subset (by simp))).trans (hk b (hab.subset (by simp))).symm).le

end Seq
