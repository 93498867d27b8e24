import Mathlib.Data.List.Nodup
import Mathlib.Logic.Function.Basic
import Mathlib.Tactic.Common

/-! Transactions that claim rows with `SELECT ... FOR UPDATE SKIP LOCKED`. A transaction locks rows
one at a time, by the last committed version and passing over what others have locked; it writes
them, and its commit publishes what it wrote and lets go of its locks. -/

namespace SkipLocked

/-- What a call claims: at most `limit` of the rows it `wants`. What it writes is the same row with
another status. -/
structure Claim {κ ρ σ : Type} (key : ρ → κ) (status : ρ → σ) where
  wants : ρ → Bool
  limit : Option Nat
  write : ρ → ρ
  keeps : ∀ row, key (write row) = key row
  leaves : ∀ row, wants row = true → status (write row) ≠ status row

/-- An open transaction: the rows it has locked, as it read them, and its uncommitted versions. -/
structure Tx (C κ ρ : Type) where
  call : C
  selecting : Bool := true
  locked : List (κ × ρ) := []
  written : κ → Option ρ := fun _ => none

/-- What a call returned, with the committed rows at its commit and how often the status of each had
changed by then. -/
structure Answer (C κ ρ : Type) where
  call : C
  rows : List (κ × ρ)
  before : κ → Option ρ
  visit : κ → Nat

/-- The stays the call took its rows out of. -/
def Answer.stays {C κ ρ : Type} (a : Answer C κ ρ) : List (κ × Nat) :=
  a.rows.map fun q => (q.1, a.visit q.1)

/-- The committed rows, the lock table and the open transactions. A row's stay in a status is
numbered by `visit`. -/
structure State (C κ ρ : Type) where
  rows : κ → Option ρ
  owner : κ → Option Nat := fun _ => none
  tx : Nat → Option (Tx C κ ρ) := fun _ => none
  visit : κ → Nat := fun _ => 0
  answers : List (Answer C κ ρ) := []

/-- `put` is the commit of any other transaction that writes or adds a row. -/
inductive Action (C κ ρ : Type) where
  | start (i : Nat) (call : C)
  | lock (i : Nat) (k : κ)
  | fetch (i : Nat)
  | update (i : Nat) (k : κ)
  | commit (i : Nat)
  | rollback (i : Nat)
  | put (row : ρ)

section
variable {C κ ρ σ : Type} {key : ρ → κ} {status : ρ → σ}

def State.close (s : State C κ ρ) (i : Nat) : State C κ ρ :=
  { s with
    owner := fun k => if s.owner k = some i then none else s.owner k
    tx := Function.update s.tx i none }

def State.set (s : State C κ ρ) (i : Nat) (t : Tx C κ ρ) : State C κ ρ :=
  { s with tx := Function.update s.tx i (some t) }

/-- The transaction may lock a row it reads as `row`. -/
def Tx.takes (claim : C → Claim key status) (t : Tx C κ ρ) (row : ρ) : Bool :=
  t.selecting ∧ (claim t.call).wants row ∧ (claim t.call).limit.all (t.locked.length < ·)

def Tx.answer (t : Tx C κ ρ) (s : State C κ ρ) : Answer C κ ρ := ⟨t.call, t.locked, s.rows, s.visit⟩

section
variable [DecidableEq κ] [DecidableEq σ] (claim : C → Claim key status)

/-- New committed rows; a row whose status changes begins another stay. -/
def State.publish (status : ρ → σ) (s : State C κ ρ) (rows : κ → Option ρ) : State C κ ρ :=
  { s with
    rows := rows
    visit := fun k => if (rows k).map status = (s.rows k).map status then s.visit k
      else s.visit k + 1 }

def step (s : State C κ ρ) : Action C κ ρ → Option (State C κ ρ)
  | .start i c => if s.tx i = none then some (s.set i { call := c }) else none
  | .lock i k => do
    let t ← s.tx i
    let row ← s.rows k
    if s.owner k = none ∧ t.takes claim row then
      some { s.set i { t with locked := t.locked ++ [(k, row)] } with
        owner := Function.update s.owner k (some i) }
    else none
  | .fetch i => (s.tx i).map fun t => s.set i { t with selecting := false }
  | .update i k => do
    let t ← s.tx i
    let q ← t.locked.find? (·.1 = k)
    if t.selecting then none
    else some (s.set i { t with
      written := Function.update t.written k (some ((claim t.call).write q.2)) })
  | .commit i => do
    let t ← s.tx i
    if t.selecting = false ∧ ∀ q ∈ t.locked, (t.written q.1).isSome then
      some { (s.publish status fun k => (t.written k).or (s.rows k)).close i with
        answers := s.answers ++ [t.answer s] }
    else none
  | .rollback i => if (s.tx i).isSome then some (s.close i) else none
  | .put row => if s.owner (key row) = none then
      some (s.publish status (Function.update s.rows (key row) (some row))) else none

inductive Reach (s₀ : State C κ ρ) : State C κ ρ → Prop where
  | refl : Reach s₀ s₀
  | step {s s' : State C κ ρ} (a : Action C κ ρ) :
      Reach s₀ s → step claim s a = some s' → Reach s₀ s'

def exec (s : State C κ ρ) : List (Action C κ ρ) → Option (State C κ ρ)
  | [] => some s
  | a :: as => (step claim s a).bind fun s' => exec s' as

end

/-! ## The invariant -/

variable (claim : C → Claim key status)

/-- What a transaction holds is its own and is as it read it. -/
structure Tx.Sound (s : State C κ ρ) (i : Nat) (t : Tx C κ ρ) : Prop where
  owns : ∀ q ∈ t.locked, s.owner q.1 = some i
  kept : ∀ q ∈ t.locked, s.rows q.1 = some q.2
  wanted : ∀ q ∈ t.locked, (claim t.call).wants q.2 = true
  nodup : (t.locked.map Prod.fst).Nodup
  within : ∀ n ∈ (claim t.call).limit, t.locked.length ≤ n
  writes : ∀ k row', t.written k = some row' →
    ∃ q ∈ t.locked, q.1 = k ∧ row' = (claim t.call).write q.2

/-- What a call returned was there for it to claim. -/
structure Answer.Sound (a : Answer C κ ρ) : Prop where
  found : ∀ q ∈ a.rows, a.before q.1 = some q.2 ∧ (claim a.call).wants q.2 = true
  keyed : ∀ q ∈ a.rows, key q.2 = q.1
  within : ∀ n ∈ (claim a.call).limit, a.rows.length ≤ n

structure Inv (s : State C κ ρ) : Prop where
  keyed : ∀ k row, s.rows k = some row → key row = k
  tx : ∀ i t, s.tx i = some t → t.Sound claim s i
  answers : ∀ a ∈ s.answers, a.Sound claim
  past : ∀ a ∈ s.answers, ∀ stay ∈ a.stays, stay.2 < s.visit stay.1
  once : (s.answers.flatMap Answer.stays).Nodup

theorem inv_start {s : State C κ ρ} (hk : ∀ k row, s.rows k = some row → key row = k)
    (ht : ∀ i, s.tx i = none) (ha : s.answers = []) : Inv claim s where
  keyed := hk
  tx i t h := by rw [ht i] at h; cases h
  answers a h := by rw [ha] at h; cases h
  past a h := by rw [ha] at h; cases h
  once := by rw [ha]; exact List.nodup_nil

variable {claim} {s s' : State C κ ρ}

theorem Tx.Sound.congr {i : Nat} {t : Tx C κ ρ} (h : t.Sound claim s i)
    (ho : ∀ k, s.owner k = some i → s'.owner k = some i)
    (hr : ∀ k, s.owner k = some i → s'.rows k = s.rows k) : t.Sound claim s' i where
  owns q hq := ho _ (h.owns q hq)
  kept q hq := (hr _ (h.owns q hq)).trans (h.kept q hq)
  wanted := h.wanted
  nodup := h.nodup
  within := h.within
  writes := h.writes

theorem Inv.of_tx (h : Inv claim s) (hk : ∀ k row, s'.rows k = some row → key row = k)
    (ht : ∀ i t, s'.tx i = some t → t.Sound claim s' i)
    (ha : s'.answers = s.answers) (hv : ∀ k, s.visit k ≤ s'.visit k) : Inv claim s' where
  keyed := hk
  tx := ht
  answers a hm := h.answers a (ha ▸ hm)
  past a hm stay hs := Nat.lt_of_lt_of_le (h.past a (ha ▸ hm) stay hs) (hv _)
  once := by rw [ha]; exact h.once

theorem inv_set (h : Inv claim s) {i : Nat} {t : Tx C κ ρ} {owner : κ → Option Nat}
    (ht : t.Sound claim { s.set i t with owner := owner } i)
    (ho : ∀ k j, s.owner k = some j → owner k = some j) :
    Inv claim { s.set i t with owner := owner } := by
  refine h.of_tx h.keyed (fun j u hj => ?_) rfl fun _ => Nat.le_refl _
  by_cases hji : j = i
  · subst hji
    simp only [State.set, Function.update_self, Option.some.injEq] at hj
    exact hj ▸ ht
  · simp only [State.set, Function.update_of_ne hji] at hj
    exact (h.tx j u hj).congr (fun k => ho k j) fun _ _ => rfl

theorem tx_close {i j : Nat} {u : Tx C κ ρ} (h : (s.close i).tx j = some u) :
    j ≠ i ∧ s.tx j = some u := by
  have hne : j ≠ i := by
    rintro rfl
    simp [State.close] at h
  exact ⟨hne, by simpa [State.close, Function.update_of_ne hne] using h⟩

theorem owner_close {i j : Nat} {k : κ} (hne : j ≠ i) (hk : s.owner k = some j) :
    (s.close i).owner k = some j := by
  have hki : s.owner k ≠ some i := by
    rw [hk]
    exact fun h => hne (Option.some.inj h)
  exact (if_neg hki).trans hk

theorem inv_rollback (h : Inv claim s) (i : Nat) : Inv claim (s.close i) := by
  refine h.of_tx h.keyed (fun j u hj => ?_) rfl fun _ => Nat.le_refl _
  obtain ⟨hne, hu⟩ := tx_close hj
  exact (h.tx j u hu).congr (fun k hk => owner_close hne hk) fun _ _ => rfl

section
variable [DecidableEq κ]

theorem inv_lock (h : Inv claim s) {i : Nat} {t : Tx C κ ρ} {k : κ} {row : ρ} (hi : s.tx i = some t)
    (hk : s.rows k = some row) (ho : s.owner k = none) (ht : t.takes claim row = true) :
    Inv claim { s.set i { t with locked := t.locked ++ [(k, row)] } with
      owner := Function.update s.owner k (some i) } := by
  have hsound := h.tx i t hi
  obtain ⟨-, hwants, hroom⟩ := of_decide_eq_true ht
  have hfree : ∀ q ∈ t.locked, q.1 ≠ k := by
    intro q hq hqk
    have howns := hsound.owns q hq
    rw [hqk, ho] at howns
    cases howns
  -- the row was free, so nobody loses what he holds
  have hkeep : ∀ k' j, s.owner k' = some j → Function.update s.owner k (some i) k' = some j := by
    intro k' j hj
    have hne : k' ≠ k := by
      rintro rfl
      rw [ho] at hj
      cases hj
    rw [Function.update_of_ne hne, hj]
  refine inv_set h ?_ hkeep
  constructor
  · intro q hq
    rcases List.mem_append.1 hq with hq | hq
    · exact hkeep _ _ (hsound.owns q hq)
    · rw [List.mem_singleton.1 hq]
      exact Function.update_self ..
  · intro q hq
    rcases List.mem_append.1 hq with hq | hq
    · exact hsound.kept q hq
    · rw [List.mem_singleton.1 hq]
      exact hk
  · intro q hq
    rcases List.mem_append.1 hq with hq | hq
    · exact hsound.wanted q hq
    · rw [List.mem_singleton.1 hq]
      exact hwants
  · rw [List.map_append, List.map_singleton]
    apply hsound.nodup.append (List.nodup_singleton k)
    rw [List.disjoint_singleton]
    rintro hm
    obtain ⟨q, hq, hqk⟩ := List.mem_map.1 hm
    exact hfree q hq hqk
  · intro n hn
    have hlt := (Option.all_eq_true _ _).1 hroom n hn
    rw [List.length_append, List.length_singleton]
    exact of_decide_eq_true hlt
  · intro k' row' hw
    obtain ⟨q, hq, hqk⟩ := hsound.writes k' row' hw
    exact ⟨q, List.mem_append_left _ hq, hqk⟩

theorem inv_update (h : Inv claim s) {i : Nat} {t : Tx C κ ρ} {q : κ × ρ} (hi : s.tx i = some t)
    (hq : q ∈ t.locked) :
    Inv claim (s.set i { t with
      written := Function.update t.written q.1 (some ((claim t.call).write q.2)) }) := by
  have hsound := h.tx i t hi
  refine inv_set h ?_ fun _ _ hk => hk
  refine ⟨hsound.owns, hsound.kept, hsound.wanted, hsound.nodup, hsound.within, ?_⟩
  intro k row' hw
  dsimp only at hw
  by_cases hk : k = q.1
  · subst hk
    rw [Function.update_self, Option.some.injEq] at hw
    exact ⟨q, hq, rfl, hw.symm⟩
  · rw [Function.update_of_ne hk] at hw
    exact hsound.writes k row' hw

end

section
variable [DecidableEq σ]

theorem visit_le_publish (rows : κ → Option ρ) (k : κ) :
    s.visit k ≤ (s.publish status rows).visit k := by
  simp only [State.publish]
  split <;> omega

theorem Tx.Sound.close {i j : Nat} {u : Tx C κ ρ} {rows : κ → Option ρ} (h : u.Sound claim s j)
    (hne : j ≠ i) (hr : ∀ k, s.owner k = some j → rows k = s.rows k) :
    u.Sound claim ((s.publish status rows).close i) j :=
  h.congr (fun _ hk => owner_close hne hk) hr

theorem inv_commit (h : Inv claim s) {i : Nat} {t : Tx C κ ρ} (hi : s.tx i = some t)
    (hw : ∀ q ∈ t.locked, (t.written q.1).isSome = true) :
    Inv claim { (s.publish status fun k => (t.written k).or (s.rows k)).close i with
      answers := s.answers ++ [t.answer s] } := by
  have hsound := h.tx i t hi
  -- a row that was locked has left its status, and begins another stay
  have hleft : ∀ q ∈ t.locked, s.visit q.1 <
      (s.publish status fun k => (t.written k).or (s.rows k)).visit q.1 := by
    intro q hq
    obtain ⟨row', hrow'⟩ := Option.isSome_iff_exists.1 (hw q hq)
    obtain ⟨q', hq', hk, rfl⟩ := hsound.writes _ _ hrow'
    have hsame : q'.2 = q.2 := by
      have := hsound.kept q' hq'
      rw [hk, hsound.kept q hq] at this
      exact (Option.some.inj this).symm
    have hstatus := (claim t.call).leaves q.2 (hsound.wanted q hq)
    simp only [State.publish, hrow', Option.some_or, hsound.kept q hq, Option.map_some, hsame,
      Option.some.injEq, if_neg hstatus]
    exact Nat.lt_succ_self _
  have hstay : ∀ stay ∈ (t.answer s).stays, stay.2 = s.visit stay.1 ∧ stay.2 <
      (s.publish status fun k => (t.written k).or (s.rows k)).visit stay.1 := by
    intro stay hs
    obtain ⟨q, hq, rfl⟩ := List.mem_map.1 hs
    exact ⟨rfl, hleft q hq⟩
  constructor
  · intro k row hrow
    have hrow : (t.written k).or (s.rows k) = some row := hrow
    cases hwk : t.written k with
    | none =>
      rw [hwk, Option.none_or] at hrow
      exact h.keyed k row hrow
    | some row' =>
      obtain ⟨q, hq, rfl, rfl⟩ := hsound.writes k row' hwk
      rw [hwk, Option.some_or, Option.some.injEq] at hrow
      rw [← hrow, (claim t.call).keeps]
      exact h.keyed _ _ (hsound.kept q hq)
  · intro j u hj
    obtain ⟨hne, hu⟩ := tx_close hj
    refine ((h.tx j u hu).close hne fun k hk => ?_).congr (fun _ hk => hk) fun _ _ => rfl
    cases hwk : t.written k with
    | none => rfl
    | some row' =>
      obtain ⟨q, hq, rfl, -⟩ := hsound.writes k row' hwk
      rw [hsound.owns q hq] at hk
      exact absurd (Option.some.inj hk).symm hne
  · intro a ha
    rcases List.mem_append.1 ha with ha | ha
    · exact h.answers a ha
    · rw [List.mem_singleton.1 ha]
      exact ⟨fun q hq => ⟨hsound.kept q hq, hsound.wanted q hq⟩,
        fun q hq => h.keyed _ _ (hsound.kept q hq), hsound.within⟩
  · intro a ha stay hs
    rcases List.mem_append.1 ha with ha | ha
    · have hmono : s.visit stay.1 ≤
          (s.publish status fun k => (t.written k).or (s.rows k)).visit stay.1 :=
        visit_le_publish _ _
      exact Nat.lt_of_lt_of_le (h.past a ha stay hs) hmono
    · rw [List.mem_singleton.1 ha] at hs
      exact (hstay stay hs).2
  · rw [List.flatMap_append, List.flatMap_singleton]
    refine h.once.append ?_ ?_
    · apply List.Nodup.of_map Prod.fst
      rw [Answer.stays, List.map_map]
      exact hsound.nodup
    · intro stay hold hnew
      obtain ⟨a, ha, hs⟩ := List.mem_flatMap.1 hold
      have hlt := h.past a ha stay hs
      rw [(hstay stay hnew).1] at hlt
      exact absurd hlt (Nat.lt_irrefl _)

variable [DecidableEq κ]

theorem inv_put (h : Inv claim s) {row : ρ} (ho : s.owner (key row) = none) :
    Inv claim (s.publish status (Function.update s.rows (key row) (some row))) := by
  refine h.of_tx (fun k row' hk => ?_)
    (fun j u hj => (h.tx j u hj).congr (fun _ hk => hk) fun k hk => ?_) rfl (visit_le_publish _)
  · have hk : Function.update s.rows (key row) (some row) k = some row' := hk
    by_cases hrow : k = key row
    · rw [hrow, Function.update_self, Option.some.injEq] at hk
      rw [hrow, hk]
    · rw [Function.update_of_ne hrow] at hk
      exact h.keyed k row' hk
  · have hne : k ≠ key row := by
      rintro rfl
      rw [ho] at hk
      cases hk
    exact Function.update_of_ne hne ..

theorem inv_step (h : Inv claim s) {a : Action C κ ρ} (hs : step claim s a = some s') :
    Inv claim s' := by
  cases a with
  | start i c =>
    obtain ⟨hi, hs⟩ := Option.ite_none_right_eq_some.1 hs
    cases hs
    refine inv_set h ?_ fun _ _ hk => hk
    exact ⟨by simp, by simp, by simp, List.nodup_nil, fun n _ => Nat.zero_le n, by simp⟩
  | lock i k =>
    obtain ⟨t, hi, hs⟩ := Option.bind_eq_some_iff.1 hs
    obtain ⟨row, hk, hs⟩ := Option.bind_eq_some_iff.1 hs
    obtain ⟨⟨ho, ht⟩, hs⟩ := Option.ite_none_right_eq_some.1 hs
    cases hs
    exact inv_lock h hi hk ho ht
  | fetch i =>
    obtain ⟨t, hi, rfl⟩ := Option.map_eq_some_iff.1 hs
    have ht := h.tx i t hi
    exact inv_set h ⟨ht.owns, ht.kept, ht.wanted, ht.nodup, ht.within, ht.writes⟩ fun _ _ hk => hk
  | update i k =>
    obtain ⟨t, hi, hs⟩ := Option.bind_eq_some_iff.1 hs
    obtain ⟨q, hq, hs⟩ := Option.bind_eq_some_iff.1 hs
    obtain ⟨-, hs⟩ := Option.ite_none_left_eq_some.1 hs
    cases hs
    have hkey : q.1 = k := by simpa using List.find?_some hq
    exact hkey ▸ inv_update h hi (List.mem_of_find?_eq_some hq)
  | commit i =>
    obtain ⟨t, hi, hs⟩ := Option.bind_eq_some_iff.1 hs
    obtain ⟨⟨-, hw⟩, hs⟩ := Option.ite_none_right_eq_some.1 hs
    cases hs
    exact inv_commit h hi hw
  | rollback i =>
    obtain ⟨-, hs⟩ := Option.ite_none_right_eq_some.1 hs
    cases hs
    exact inv_rollback h i
  | put row =>
    obtain ⟨ho, hs⟩ := Option.ite_none_right_eq_some.1 hs
    cases hs
    exact inv_put h ho

theorem inv_of_reach {s₀ : State C κ ρ} (h₀ : Inv claim s₀) (h : Reach claim s₀ s) :
    Inv claim s := by
  induction h with
  | refl => exact h₀
  | step a _ hs ih => exact inv_step ih hs

theorem reach_of_exec {s₀ : State C κ ρ} {as : List (Action C κ ρ)} (h₀ : Reach claim s₀ s)
    (h : exec claim s as = some s') : Reach claim s₀ s' := by
  induction as generalizing s with
  | nil =>
    cases h
    exact h₀
  | cons a as ih =>
    obtain ⟨s₁, hs, h⟩ := Option.bind_eq_some_iff.1 h
    exact ih (h₀.step a hs) h

end

end

end SkipLocked
