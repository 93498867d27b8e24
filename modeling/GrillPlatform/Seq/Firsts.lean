import Mathlib.Data.List.Dedup
import Mathlib.Tactic.Common

/-! The first element of every key of a list, in order. -/

namespace Seq
variable {α κ : Type} [DecidableEq κ] {key : α → κ}

/-- The elements whose key is not in `seen` and has not come before. -/
def firsts (key : α → κ) : List κ → List α → List α
  | _, [] => []
  | seen, a :: as =>
    if key a ∈ seen then firsts key seen as else a :: firsts key (key a :: seen) as

variable {seen seen' : List κ} {as bs : List α}

theorem firsts_congr (h : ∀ k, k ∈ seen ↔ k ∈ seen') : firsts key seen as =
    firsts key seen' as := by
  induction as generalizing seen seen' with
  | nil => rfl
  | cons a as ih =>
    simp only [firsts, h (key a)]
    split
    · exact ih h
    · exact congrArg (a :: ·) (ih fun k => by simp [h k])

theorem firsts_filter (ks : List κ) (as : List α) :
    firsts key (ks ++ seen) as = firsts key seen (as.filter fun a => key a ∉ ks) := by
  induction as generalizing seen with
  | nil => rfl
  | cons a as ih =>
    by_cases hk : key a ∈ ks
    · rw [firsts, if_pos (List.mem_append_left _ hk),
        List.filter_cons_of_neg (by simpa using hk), ih]
    · rw [List.filter_cons_of_pos (by simpa using hk)]
      simp only [firsts, List.mem_append, hk, false_or]
      split
      · exact ih
      · have hswap : firsts key (key a :: (ks ++ seen)) as = firsts key (ks ++ key a :: seen) as :=
          firsts_congr fun k => by
            simp only [List.mem_cons, List.mem_append]
            exact or_left_comm
        rw [hswap, ih]

theorem mem_map_firsts {k : κ} :
    k ∈ (firsts key seen as).map key ↔ k ∉ seen ∧ k ∈ as.map key := by
  induction as generalizing seen with
  | nil => simp [firsts]
  | cons a as ih =>
    rw [firsts]
    split
    · rename_i ha
      rw [ih, List.map_cons, List.mem_cons]
      constructor
      · exact fun h => ⟨h.1, .inr h.2⟩
      · rintro ⟨hk, rfl | h⟩
        · exact absurd ha hk
        · exact ⟨hk, h⟩
    · rename_i ha
      rw [List.map_cons, List.mem_cons, ih, List.map_cons, List.mem_cons, List.mem_cons]
      by_cases hk : k = key a
      · subst hk
        simp [ha]
      · simp [hk]

theorem nodup_firsts : ((firsts key seen as).map key).Nodup := by
  induction as generalizing seen with
  | nil => exact List.nodup_nil
  | cons a as ih =>
    rw [firsts]
    split
    · exact ih
    · rw [List.map_cons]
      exact List.nodup_cons.2 ⟨fun h => (mem_map_firsts.1 h).1 List.mem_cons_self, ih⟩

theorem length_firsts : (firsts key [] as).length = (as.map key).dedup.length := by
  have hperm : ((firsts key [] as).map key).Perm (as.map key).dedup :=
    (List.perm_ext_iff_of_nodup nodup_firsts (List.nodup_dedup _)).2 fun k => by
      simp only [mem_map_firsts, List.mem_dedup, List.not_mem_nil, not_false_eq_true, true_and]
  rw [← hperm.length_eq, List.length_map]

theorem length_firsts_eq_iff : (firsts key [] as).length = as.length ↔ (as.map key).Nodup := by
  rw [length_firsts, ← List.length_map (f := key)]
  constructor
  · intro h
    rw [← (List.dedup_sublist (as.map key)).eq_of_length h]
    exact List.nodup_dedup _
  · intro h
    rw [h.dedup]

theorem firsts_eq_nil : firsts key [] as = [] ↔ as = [] := by
  rw [← List.length_eq_zero_iff, length_firsts, List.length_eq_zero_iff, List.dedup_eq_nil,
    List.map_eq_nil_iff]

end Seq
