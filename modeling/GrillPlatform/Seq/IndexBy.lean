import Mathlib.Data.List.Induction
import Mathlib.Logic.Function.Basic

/-! A list indexed by a key: the elements are entered one after another, so of those with one key
the last stays. -/

namespace Seq
variable {α κ : Type} [DecidableEq κ]

def indexBy (key : α → κ) (xs : List α) : κ → Option α :=
  xs.foldl (fun index x => Function.update index (key x) (some x)) fun _ => none

variable {key : α → κ} {xs : List α} {k : κ} {x : α}

theorem indexBy_concat (xs : List α) (x : α) :
    indexBy key (xs ++ [x]) = Function.update (indexBy key xs) (key x) (some x) := by
  rw [indexBy, List.foldl_append]
  rfl

theorem indexBy_eq_find (xs : List α) (k : κ) :
    indexBy key xs k = xs.reverse.find? fun x => key x = k := by
  induction xs using List.reverseRecOn with
  | nil => rfl
  | append_singleton xs y ih =>
    rw [indexBy_concat, List.reverse_concat, List.find?_cons]
    by_cases hk : k = key y
    · subst hk
      rw [Function.update_self, decide_eq_true rfl]
    · rw [Function.update_of_ne hk, ih, decide_eq_false fun h => hk h.symm]

theorem indexBy_eq_none : indexBy key xs k = none ↔ ∀ x ∈ xs, key x ≠ k := by
  rw [indexBy_eq_find, List.find?_eq_none]
  simp

/-- The element of a key is the one after which the key does not come again. -/
theorem indexBy_eq_some : indexBy key xs k = some x ↔
    ∃ pre post, xs = pre ++ x :: post ∧ key x = k ∧ ∀ y ∈ post, key y ≠ k := by
  rw [indexBy_eq_find, List.find?_eq_some_iff_append]
  constructor
  · rintro ⟨hx, post, pre, h, hpost⟩
    refine ⟨pre.reverse, post.reverse, ?_, of_decide_eq_true hx, fun y hy => ?_⟩
    · rw [← List.reverse_reverse xs, h]
      simp
    · simpa using hpost y (List.mem_reverse.1 hy)
  · rintro ⟨pre, post, rfl, hx, hpost⟩
    refine ⟨decide_eq_true hx, post.reverse, pre.reverse, by simp, fun y hy => ?_⟩
    simpa using hpost y (List.mem_reverse.1 hy)

theorem indexBy_of_nodup (h : (xs.map key).Nodup) (hx : x ∈ xs) :
    indexBy key xs (key x) = some x := by
  obtain ⟨pre, post, rfl⟩ := List.append_of_mem hx
  refine indexBy_eq_some.2 ⟨pre, post, rfl, rfl, fun y hy he => ?_⟩
  rw [List.map_append, List.map_cons] at h
  have hnot := (List.nodup_cons.1 (List.nodup_append.1 h).2.1).1
  exact hnot (he ▸ List.mem_map_of_mem hy)

end Seq
