import Mathlib.Data.List.Basic
import Mathlib.Data.List.Nodup
import Mathlib.Data.List.Perm.Subperm
import Mathlib.Tactic.Common

/-! Tables with a primary key. The key constraint is a field, so a write that would break it has
no result. -/

structure Table {ρ κ : Type} (key : ρ → κ) where
  rows : List ρ
  nodup : (rows.map key).Nodup

namespace Table
variable {ρ κ : Type} {key : ρ → κ} [DecidableEq κ]

def empty : Table key := ⟨[], List.nodup_nil⟩

def get (t : Table key) (k : κ) : Option ρ := t.rows.find? fun r => key r = k

def add (t : Table key) (r : ρ) (h : key r ∉ t.rows.map key) : Table key :=
  ⟨t.rows ++ [r], by
    rw [List.map_append, List.map_singleton]
    exact List.nodup_append.2 ⟨t.nodup, List.nodup_singleton _, fun a ha b hb => by
      rw [List.mem_singleton.1 hb]; exact fun e => h (e ▸ ha)⟩⟩

def insert (t : Table key) (r : ρ) : Option (Table key) :=
  if h : key r ∈ t.rows.map key then none else some (t.add r h)

def modify (t : Table key) (f : ρ → ρ) (hf : ∀ r, key (f r) = key r) : Table key :=
  ⟨t.rows.map f, by
    rw [List.map_map, show key ∘ f = key from funext hf]; exact t.nodup⟩

def update (t : Table key) (k : κ) (f : ρ → ρ) (hf : ∀ r, key (f r) = key r) : Table key :=
  t.modify (fun r => if key r = k then f r else r) fun r => by split <;> simp [hf]

/-- Another row in place of the row with key `k`, under a key of its own. -/
def replace (t : Table key) (k : κ) (r : ρ) : Option (Table key) :=
  if h : ((t.rows.map fun x => if key x = k then r else x).map key).Nodup then some ⟨_, h⟩
  else none

/-- The row with the key of `r` becomes `r`; a missing one is added. -/
def put (t : Table key) (r : ρ) : Table key :=
  if h : key r ∈ t.rows.map key then
    ⟨t.rows.map fun x => if key x = key r then r else x, by
      have hk : (key ∘ fun x => if key x = key r then r else x) = key := by
        funext x; by_cases e : key x = key r <;> simp [e]
      rw [List.map_map, hk]; exact t.nodup⟩
  else t.add r h

theorem get_eq_some {t : Table key} {k : κ} {r : ρ} :
    t.get k = some r ↔ r ∈ t.rows ∧ key r = k := by
  constructor
  · intro h
    exact ⟨List.mem_of_find?_eq_some h, by simpa using List.find?_some h⟩
  · rintro ⟨hr, rfl⟩
    cases h : t.get (key r) with
    | none => exact absurd (List.find?_eq_none.1 h r hr) (by simp)
    | some x =>
      have hx : x ∈ t.rows := List.mem_of_find?_eq_some h
      have hk : key x = key r := by simpa using List.find?_some h
      rw [List.inj_on_of_nodup_map t.nodup hx hr hk]

theorem countP_of_get {t : Table key} {k : κ} {r : ρ} (h : t.get k = some r) :
    t.rows.countP (fun x => key x = k) = 1 := by
  have hm : k ∈ t.rows.map key := List.mem_map.2 ⟨r, get_eq_some.1 h⟩
  rw [← List.count_eq_one_of_mem t.nodup hm, List.count, List.countP_map]
  exact List.countP_congr fun x _ => by simp

theorem get_of_countP {t : Table key} {k : κ} (h : t.rows.countP (fun x => key x = k) = 1) :
    ∃ r, t.get k = some r := by
  obtain ⟨r, hr, hk⟩ := List.countP_pos_iff.1 (show 0 < _ by rw [h]; decide)
  exact ⟨r, get_eq_some.2 ⟨hr, by simpa using hk⟩⟩

theorem get_eq_none {t : Table key} {k : κ} : t.get k = none ↔ ∀ r ∈ t.rows, key r ≠ k := by
  simp [get, List.find?_eq_none]

theorem key_of_get {t : Table key} {k : κ} {r : ρ} (h : t.get k = some r) : key r = k :=
  (get_eq_some.1 h).2

omit [DecidableEq κ] in
theorem eq_of_key {t : Table key} {r x : ρ} (hr : r ∈ t.rows) (hx : x ∈ t.rows)
    (h : key r = key x) : r = x := List.inj_on_of_nodup_map t.nodup hr hx h

omit [DecidableEq κ] in
@[simp] theorem rows_modify (t : Table key) (f : ρ → ρ) (hf) :
    (t.modify f hf).rows = t.rows.map f :=
  rfl

@[simp] theorem get_modify (t : Table key) (f : ρ → ρ) (hf) (k : κ) :
    (t.modify f hf).get k = (t.get k).map f := by
  have hkey : (fun r => decide (key r = k)) ∘ f = fun r => decide (key r = k) :=
    funext fun r => congrArg (fun l => decide (l = k)) (hf r)
  simp only [get, modify, List.find?_map, hkey]

theorem get_update (t : Table key) (k : κ) (f : ρ → ρ) (hf) (l : κ) :
    (t.update k f hf).get l = if l = k then (t.get k).map f else t.get l := by
  rw [update, get_modify]
  cases h : t.get l with
  | none => split <;> simp_all
  | some r =>
    have := key_of_get h
    split <;> simp_all

theorem rows_insert {t u : Table key} {r : ρ} (h : t.insert r = some u) :
    u.rows = t.rows ++ [r] ∧ key r ∉ t.rows.map key := by
  unfold insert at h
  split at h
  · cases h
  · cases h; exact ⟨rfl, ‹_›⟩

theorem insert_of_get {t : Table key} {r : ρ} (h : t.get (key r) = none) :
    ∃ u, t.insert r = some u := by
  have hn : key r ∉ t.rows.map key := fun hm => by
    obtain ⟨x, hx, e⟩ := List.mem_map.1 hm
    exact get_eq_none.1 h x hx e
  exact ⟨t.add r hn, dif_neg hn⟩

theorem insert_of_mem {t : Table key} {r : ρ} (h : t.get (key r) ≠ none) : t.insert r = none := by
  obtain ⟨x, hx⟩ := Option.ne_none_iff_exists'.1 h
  obtain ⟨hm, hk⟩ := get_eq_some.1 hx
  exact dif_pos (List.mem_map.2 ⟨x, hm, hk⟩)

theorem get_insert {t u : Table key} {r : ρ} (h : t.insert r = some u) (k : κ) :
    u.get k = if key r = k then some r else t.get k := by
  obtain ⟨hr, hk⟩ := rows_insert h
  rw [get, hr, List.find?_append]
  split
  · rename_i e
    have : t.rows.find? (fun r => key r = k) = none := by
      rw [List.find?_eq_none]
      intro x hx
      simpa [← e] using fun e' => hk (List.mem_map.2 ⟨x, hx, e'⟩)
    simp [this, e]
  · rename_i e
    simp [e, get]

theorem rows_replace {t u : Table key} {k : κ} {r : ρ} (h : t.replace k r = some u) :
    u.rows = t.rows.map fun x => if key x = k then r else x := by
  unfold replace at h
  split at h
  · cases h; rfl
  · cases h

theorem mem_replace {t u : Table key} {k : κ} {r y : ρ} (h : t.replace k r = some u)
    (hy : y ∈ t.rows) (hk : key y = k) {x : ρ} :
    x ∈ u.rows ↔ x = r ∨ (x ∈ t.rows ∧ key x ≠ k) := by
  rw [rows_replace h, List.mem_map]
  constructor
  · rintro ⟨z, hz, rfl⟩
    split
    · exact .inl rfl
    · exact .inr ⟨hz, ‹_›⟩
  · rintro (rfl | ⟨hx, hn⟩)
    · exact ⟨y, hy, if_pos hk⟩
    · exact ⟨x, hx, if_neg hn⟩

theorem mem_put {t : Table key} {r x : ρ} :
    x ∈ (t.put r).rows ↔ x = r ∨ (x ∈ t.rows ∧ key x ≠ key r) := by
  unfold put
  split
  · rename_i h
    obtain ⟨y, hy, hk⟩ := List.mem_map.1 h
    simp only [List.mem_map]
    constructor
    · rintro ⟨z, hz, rfl⟩
      split
      · exact .inl rfl
      · exact .inr ⟨hz, ‹_›⟩
    · rintro (rfl | ⟨hx, hn⟩)
      · exact ⟨y, hy, if_pos hk⟩
      · exact ⟨x, hx, if_neg hn⟩
  · rename_i h
    simp only [add, List.mem_append, List.mem_singleton]
    constructor
    · rintro (hx | rfl)
      · exact .inr ⟨hx, fun e => h (List.mem_map.2 ⟨x, hx, e⟩)⟩
      · exact .inl rfl
    · rintro (rfl | ⟨hx, _⟩)
      · exact .inr rfl
      · exact .inl hx

theorem countP_mem_le (t : Table key) (ks : List κ) :
    t.rows.countP (fun r => key r ∈ ks) ≤ ks.length := by
  have hsub : ((t.rows.filter fun r => key r ∈ ks).map key) ⊆ ks := by
    intro k hk
    obtain ⟨r, hr, rfl⟩ := List.mem_map.1 hk
    simpa using (List.mem_filter.1 hr).2
  have hnd : ((t.rows.filter fun r => key r ∈ ks).map key).Nodup :=
    t.nodup.sublist (List.filter_sublist.map key)
  rw [List.countP_eq_length_filter, ← List.length_map (f := key)]
  exact (List.subperm_of_subset hnd hsub).length_le

end Table
