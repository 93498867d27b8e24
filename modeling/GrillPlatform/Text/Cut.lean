import Mathlib.Data.List.Infix
import Mathlib.Tactic.Common

/-! Texts as lists of characters, cut at a separator. -/

namespace Text
variable {α : Type} {sep : α}

theorem eq_of_cut {a b x y : List α} (ha : sep ∉ a) (hb : sep ∉ b)
    (h : a ++ sep :: x = b ++ sep :: y) : a = b ∧ x = y := by
  induction a generalizing b with
  | nil =>
    cases b with
    | nil => exact ⟨rfl, (List.cons.inj h).2⟩
    | cons c b => exact absurd ((List.cons.inj h).1 ▸ List.mem_cons_self) hb
  | cons c a ih =>
    cases b with
    | nil => exact absurd ((List.cons.inj h).1 ▸ List.mem_cons_self) ha
    | cons d b =>
      obtain ⟨rfl, htail⟩ := List.cons.inj h
      obtain ⟨rfl, rfl⟩ := ih (fun hm => ha (List.mem_cons_of_mem _ hm))
        (fun hm => hb (List.mem_cons_of_mem _ hm)) htail
      exact ⟨rfl, rfl⟩

/-- A text is a piece without separators, or one before a separator and a text. -/
theorem induction_cut {P : List α → Prop} (sep : α) (piece : ∀ l, sep ∉ l → P l)
    (cut : ∀ l t, sep ∉ l → P t → P (l ++ sep :: t)) (t : List α) : P t := by
  by_cases h : sep ∈ t
  · obtain ⟨l, u, ht, hl⟩ := List.eq_append_cons_of_mem h
    exact ht ▸ cut l u hl (induction_cut sep piece cut u)
  · exact piece t h
termination_by t.length
decreasing_by
  rw [ht, List.length_append, List.length_cons]
  omega

/-! ## The pieces between separators -/

section
variable {p v : α → Bool} {l m : List α}

/-- The pieces of a text between the separators `p` that show an element of `v`. -/
noncomputable def shown (p v : α → Bool) (l : List α) : List (List α) :=
  (l.splitOnP p).filter fun piece => piece.any v

theorem shown_cut (hs : p sep = true) : shown p v (l ++ sep :: m) = shown p v l ++ shown p v m := by
  rw [shown, List.splitOnP_append_cons l m hs, List.filter_append, shown, shown]

theorem shown_singleton (hp : ∀ a ∈ l, p a = false) (hv : ∃ a ∈ l, v a = true) :
    shown p v l = [l] := by
  rw [shown, List.splitOnP_eq_singleton hp, List.filter_singleton, List.any_eq_true.2 hv]
  rfl

theorem splitOnP_infix (p : α → Bool) (l : List α) :
    ∃ first rest, l.splitOnP p = first :: rest ∧ first <+: l ∧ ∀ piece ∈ rest, piece <:+: l := by
  induction l with
  | nil => exact ⟨[], [], rfl, List.prefix_refl _, by simp⟩
  | cons a l ih =>
    obtain ⟨first, rest, hl, hfirst, hrest⟩ := ih
    have hin : ∀ piece : List α, piece <:+: l → piece <:+: a :: l := fun _ h =>
      h.trans (List.suffix_cons a l).isInfix
    rw [List.splitOnP_cons_eq_if_modifyHead, hl]
    split
    · refine ⟨[], first :: rest, rfl, List.nil_prefix, fun piece h => ?_⟩
      rcases List.mem_cons.1 h with rfl | h
      · exact hin _ hfirst.isInfix
      · exact hin _ (hrest _ h)
    · exact ⟨a :: first, rest, rfl, List.cons_prefix_cons.2 ⟨rfl, hfirst⟩, fun _ h =>
        hin _ (hrest _ h)⟩

theorem infix_of_mem_splitOnP {piece : List α} (h : piece ∈ l.splitOnP p) : piece <:+: l := by
  obtain ⟨first, rest, hl, hfirst, hrest⟩ := splitOnP_infix p l
  rw [hl] at h
  rcases List.mem_cons.1 h with rfl | h
  · exact hfirst.isInfix
  · exact hrest _ h

theorem not_mem_of_mem_splitOn [BEq α] [LawfulBEq α] {l piece : List α}
    (h : piece ∈ l.splitOn sep) : sep ∉ piece := by
  induction l using induction_cut sep with
  | piece l hl =>
    rw [List.splitOn_eq_singleton hl, List.mem_singleton] at h
    exact h ▸ hl
  | cut l t hl ih =>
    rw [List.splitOn_append_cons_self_of_not_mem hl] at h
    rcases List.mem_cons.1 h with rfl | h
    · exact hl
    · exact ih h

theorem shown_blank (h : ∀ a ∈ l, v a = false) : shown p v l = [] := by
  refine List.filter_eq_nil_iff.2 fun piece hp => ?_
  rw [Bool.not_eq_true, List.any_eq_false]
  exact fun a ha => by simp [h a ((infix_of_mem_splitOnP hp).subset ha)]

theorem shown_ne_nil (hpv : ∀ a, p a = true → v a = false) (h : ∃ a ∈ l, v a = true) :
    shown p v l ≠ [] := by
  induction l with
  | nil => obtain ⟨a, ha, -⟩ := h; cases ha
  | cons b l ih =>
    by_cases hb : p b = true
    · rw [shown, List.splitOnP_cons_eq_if_modifyHead, if_pos hb]
      obtain ⟨a, ha, hv⟩ := h
      rcases List.mem_cons.1 ha with rfl | ha
      · rw [hpv a hb] at hv
        cases hv
      · simpa [shown] using ih ⟨a, ha, hv⟩
    · obtain ⟨first, rest, hl⟩ := List.exists_cons_of_ne_nil (List.splitOnP_ne_nil p l)
      rw [shown, List.splitOnP_cons_eq_if_modifyHead, if_neg hb, hl, List.modifyHead_cons]
      by_cases hv : v b = true
      · simp [hv]
      · obtain ⟨a, ha, hva⟩ := h
        rcases List.mem_cons.1 ha with rfl | ha
        · exact absurd hva hv
        · have h := ih ⟨a, ha, hva⟩
          rw [shown, hl] at h
          simp only [List.filter_cons, List.any_cons, eq_false_of_ne_true hv,
            Bool.false_or] at h ⊢
          split at h
          · simp [*]
          · simp [*]

end

end Text
