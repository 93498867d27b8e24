import Mathlib.Data.List.Nodup
import Mathlib.Tactic.Common

/-! Lists of keyed elements, where writing an element drops those with its key and puts it at the
end. -/

namespace Seq
variable {α κ : Type} [DecidableEq κ] (key : α → κ)

def upsert (xs : List α) (x : α) : List α := xs.filter (fun y => key y ≠ key x) ++ [x]

def upserts (xs ws : List α) : List α := ws.foldl (upsert key) xs

variable {key} {xs ys ws : List α} {x y : α} {p : α → Bool}

theorem upserts_append (xs ws ws' : List α) :
    upserts key xs (ws ++ ws') = upserts key (upserts key xs ws) ws' := List.foldl_append

theorem upserts_singleton (xs : List α) (x : α) : upserts key xs [x] = upsert key xs x := rfl

theorem mem_upsert : y ∈ upsert key xs x ↔ (y ∈ xs ∧ key y ≠ key x) ∨ y = x := by
  simp [upsert]

theorem forall_upsert {P : α → Prop} (hxs : ∀ z ∈ xs, P z) (hx : P x) :
    ∀ y ∈ upsert key xs x, P y := by
  intro y hy
  rcases mem_upsert.1 hy with ⟨hy, -⟩ | rfl
  · exact hxs y hy
  · exact hx

theorem forall_upserts {P : α → Prop} (hxs : ∀ x ∈ xs, P x) (hws : ∀ w ∈ ws, P w) :
    ∀ x ∈ upserts key xs ws, P x := by
  induction ws generalizing xs with
  | nil => exact hxs
  | cons w ws ih =>
    exact ih (forall_upsert hxs (hws w List.mem_cons_self)) fun v hv =>
      hws v (List.mem_cons_of_mem w hv)

theorem filter_upsert (hp : ∀ y, key y = key x → p y = false) :
    (upsert key xs x).filter p = xs.filter p := by
  have hx : p x = false := hp x rfl
  rw [upsert, List.filter_append, List.filter_filter, List.filter_singleton, hx]
  simp only [cond_false, List.append_nil]
  refine List.filter_congr fun y _ => ?_
  by_cases hk : key y = key x
  · rw [hp y hk, Bool.false_and]
  · simp [hk]

/-- A selection that has no key of those written is left as it is, in its order. -/
theorem filter_upserts (hp : ∀ w ∈ ws, ∀ y, key y = key w → p y = false) :
    (upserts key xs ws).filter p = xs.filter p := by
  induction ws generalizing xs with
  | nil => rfl
  | cons w ws ih =>
    exact (ih fun v hv => hp v (List.mem_cons_of_mem w hv)).trans
      (filter_upsert (hp w List.mem_cons_self))

theorem filter_upsert_self : (upsert key xs x).filter (fun y => key y = key x) = [x] := by
  have hnone : (xs.filter fun y => key y ≠ key x).filter (fun y => key y = key x) = [] := by
    rw [List.filter_filter, List.filter_eq_nil_iff]
    intro y _
    simp
  rw [upsert, List.filter_append, hnone]
  simp

/-- One element is left of every key written, that of its last write. -/
theorem filter_upserts_last {before after : List α} (hlast : ∀ v ∈ after, key v ≠ key x) :
    (upserts key xs (before ++ x :: after)).filter (fun y => key y = key x) = [x] := by
  have hother : ∀ v ∈ after, ∀ y, key y = key v → decide (key y = key x) = false := fun v hv y hy =>
    decide_eq_false fun hk => hlast v hv (hy.symm.trans hk)
  rw [upserts_append]
  show (upserts key (upsert key (upserts key xs before) x) after).filter _ = [x]
  rw [filter_upserts hother, filter_upsert_self]

theorem upsert_again : upsert key (upsert key xs x) x = upsert key xs x := by
  have hkept : (upsert key xs x).filter (fun y => key y ≠ key x) =
      xs.filter fun y => key y ≠ key x := filter_upsert fun y hy => by simp [hy]
  rw [upsert, hkept, upsert]

theorem upsert_swap (hne : key x ≠ key y) :
    (upsert key (upsert key xs x) y).Perm (upsert key (upsert key xs y) x) := by
  have hboth : upsert key (upsert key xs x) y =
      xs.filter (fun z => key z ≠ key y && key z ≠ key x) ++ [x] ++ [y] := by
    simp [upsert, List.filter_append, List.filter_filter, hne]
  have hboth' : upsert key (upsert key xs y) x =
      xs.filter (fun z => key z ≠ key y && key z ≠ key x) ++ [y] ++ [x] := by
    simp [upsert, List.filter_append, List.filter_filter, hne.symm, Bool.and_comm]
  rw [hboth, hboth', List.append_assoc, List.append_assoc]
  exact (List.Perm.swap y x []).append_left _

theorem upserts_perm (h : xs.Perm ys) (ws : List α) :
    (upserts key xs ws).Perm (upserts key ys ws) := by
  induction ws generalizing xs ys with
  | nil => exact h
  | cons w ws ih => exact ih ((h.filter _).append_right [w])

end Seq
