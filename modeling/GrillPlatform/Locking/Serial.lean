import GrillPlatform.Locking.SkipLocked

/-! A claim that runs with no other transaction open: it locks the rows it is to claim, writes them
and commits. -/

namespace SkipLocked
variable {C κ ρ σ : Type} {key : ρ → κ} {status : ρ → σ} [DecidableEq κ] [DecidableEq σ]
variable {claim : C → Claim key status} {s : State C κ ρ} {i : Nat} {t : Tx C κ ρ}

/-- Where the rows of `qs` are, `f` of what is there, and `g` elsewhere. -/
def overlay {α : Type} (qs : List (κ × ρ)) (f g : κ → α) : κ → α := fun k =>
  if k ∈ qs.map Prod.fst then f k else g k

theorem overlay_nil {α : Type} (f g : κ → α) : overlay ([] : List (κ × ρ)) f g = g := rfl

theorem overlay_cons {α : Type} (q : κ × ρ) (qs : List (κ × ρ)) (f g : κ → α) :
    overlay (q :: qs) f g = overlay qs f (Function.update g q.1 (f q.1)) := by
  funext k
  by_cases hk : k = q.1
  · subst hk
    by_cases hm : q.1 ∈ qs.map Prod.fst <;> simp [overlay, hm]
  · have hmem : k ∈ (q :: qs).map Prod.fst ↔ k ∈ qs.map Prod.fst := by
      rw [List.map_cons, List.mem_cons]
      exact or_iff_right hk
    simp only [overlay, hmem, Function.update_of_ne hk]

theorem exec_append (s : State C κ ρ) (as bs : List (Action C κ ρ)) :
    exec claim s (as ++ bs) = (exec claim s as).bind fun s' => exec claim s' bs := by
  induction as generalizing s with
  | nil => rfl
  | cons a as ih =>
    rw [List.cons_append, exec, exec, Option.bind_assoc]
    congr
    funext s'
    exact ih s'

theorem exec_lock {qs : List (κ × ρ)} (hs : t.selecting = true)
    (hrows : ∀ q ∈ qs, s.rows q.1 = some q.2 ∧ (claim t.call).wants q.2 = true)
    (hfree : ∀ q ∈ qs, s.owner q.1 = none) (hnodup : (qs.map Prod.fst).Nodup)
    (hroom : ∀ n ∈ (claim t.call).limit, t.locked.length + qs.length ≤ n) :
    exec claim (s.set i t) (qs.map fun q => .lock i q.1) =
      some { s.set i { t with locked := t.locked ++ qs } with
        owner := overlay qs (fun _ => some i) s.owner } := by
  induction qs generalizing s t with
  | nil =>
    simp only [List.map_nil, exec, overlay_nil, List.append_nil]
    rfl
  | cons q qs ih =>
    rw [List.map_cons, List.nodup_cons] at hnodup
    obtain ⟨hrow, hwants⟩ := hrows q List.mem_cons_self
    have htakes : t.takes claim q.2 = true := by
      refine decide_eq_true ⟨hs, hwants, (Option.all_eq_true _ _).2 fun n hn => ?_⟩
      have := hroom n hn
      rw [List.length_cons] at this
      exact decide_eq_true (by omega)
    have hstep : step claim (s.set i t) (.lock i q.1) =
        some (State.set { s with owner := Function.update s.owner q.1 (some i) } i
          { t with locked := t.locked ++ [q] }) := by
      simp [step, State.set, hrow, hfree q List.mem_cons_self, htakes]
    have hfree' : ∀ q' ∈ qs, Function.update s.owner q.1 (some i) q'.1 = none := by
      intro q' hq
      have hne : q'.1 ≠ q.1 := fun h => hnodup.1 (h ▸ List.mem_map_of_mem hq)
      exact (Function.update_of_ne hne ..).trans (hfree q' (List.mem_cons_of_mem q hq))
    have hroom' : ∀ n ∈ (claim t.call).limit, (t.locked ++ [q]).length + qs.length ≤ n := by
      intro n hn
      have := hroom n hn
      rw [List.length_cons] at this
      rw [List.length_append, List.length_singleton]
      omega
    have hrest := @ih { s with owner := Function.update s.owner q.1 (some i) }
      { t with locked := t.locked ++ [q] } hs (fun q' hq => hrows q' (List.mem_cons_of_mem q hq))
      hfree' hnodup.2 hroom'
    rw [List.map_cons, exec, hstep, Option.bind_some, hrest, overlay_cons, List.append_assoc]
    rfl

theorem exec_update {qs : List (κ × ρ)} (hs : t.selecting = false)
    (hrows : ∀ q ∈ t.locked, s.rows q.1 = some q.2) (hqs : qs ⊆ t.locked) :
    exec claim (s.set i t) (qs.map fun q => .update i q.1) =
      some (s.set i { t with
        written := overlay qs (fun k => (s.rows k).map (claim t.call).write) t.written }) := by
  induction qs generalizing t with
  | nil => rfl
  | cons q qs ih =>
    have hq := hqs List.mem_cons_self
    obtain ⟨q', hfind⟩ : ∃ q', t.locked.find? (·.1 = q.1) = some q' :=
      Option.isSome_iff_exists.1 (List.find?_isSome.2 ⟨q, hq, by simp⟩)
    have hkey : q'.1 = q.1 := by simpa using List.find?_some hfind
    have hrow := hrows q' (List.mem_of_find?_eq_some hfind)
    have hstep : step claim (s.set i t) (.update i q.1) = some (s.set i { t with
        written := Function.update t.written q.1 ((s.rows q.1).map (claim t.call).write) }) := by
      rw [← hkey, hrow, hkey]
      simp [step, State.set, hfind, hs]
    have hrest := @ih { t with
      written := Function.update t.written q.1 ((s.rows q.1).map (claim t.call).write) } hs hrows
      fun q' h => hqs (List.mem_cons_of_mem q h)
    rw [List.map_cons, exec, hstep, Option.bind_some, hrest, overlay_cons]

/-- The steps of a call that claims the rows `qs`. -/
def serial (i : Nat) (c : C) (qs : List (κ × ρ)) : List (Action C κ ρ) :=
  .start i c :: ((qs.map fun q => .lock i q.1) ++ .fetch i :: ((qs.map fun q => .update i q.1) ++
    [.commit i]))

theorem exec_serial {c : C} {qs : List (κ × ρ)} (hi : s.tx i = none) (hfree : ∀ k, s.owner k = none)
    (hrows : ∀ q ∈ qs, s.rows q.1 = some q.2 ∧ (claim c).wants q.2 = true)
    (hnodup : (qs.map Prod.fst).Nodup) (hroom : ∀ n ∈ (claim c).limit, qs.length ≤ n) :
    ∃ s', exec claim s (serial i c qs) = some s' ∧
      s'.rows = overlay qs (fun k => (s.rows k).map (claim c).write) s.rows ∧
      s'.answers = s.answers ++ [⟨c, qs, s.rows, s.visit⟩] ∧ s'.tx = s.tx ∧
      ∀ k, s'.owner k = none := by
  -- the states behind the start, the locks, the fetch, the updates and the commit
  let t : Tx C κ ρ := { call := c }
  let held : State C κ ρ := { s with owner := overlay qs (fun _ => some i) s.owner }
  have hstart : step claim s (.start i c) = some (s.set i t) := if_pos hi
  have hlock : exec claim (s.set i t) (qs.map fun q => .lock i q.1) =
      some (held.set i { t with locked := qs }) := by
    refine exec_lock rfl hrows (fun q _ => hfree q.1) hnodup fun n hn => ?_
    rw [List.length_nil, Nat.zero_add]
    exact hroom n hn
  have hfetch : step claim (held.set i { t with locked := qs }) (.fetch i) =
      some (held.set i { t with locked := qs, selecting := false }) := by
    simp [step, State.set]
  let written : κ → Option ρ := overlay qs (fun k => (s.rows k).map (claim c).write) fun _ => none
  let u : Tx C κ ρ := { call := c, selecting := false, locked := qs, written := written }
  have hupdate : exec claim (held.set i { t with locked := qs, selecting := false })
      (qs.map fun q => .update i q.1) = some (held.set i u) :=
    exec_update rfl (fun q hq => (hrows q hq).1) (List.Subset.refl qs)
  have hwritten : ∀ q ∈ qs, written q.1 = some ((claim c).write q.2) := by
    intro q hq
    have hm : q.1 ∈ qs.map Prod.fst := List.mem_map_of_mem hq
    simp only [written, overlay, if_pos hm, (hrows q hq).1, Option.map_some]
  let s' : State C κ ρ :=
    { ((held.set i u).publish status fun k => (written k).or (s.rows k)).close i with
      answers := s.answers ++ [⟨c, qs, s.rows, s.visit⟩] }
  have hcommit : step claim (held.set i u) (.commit i) = some s' := by
    have htx : (held.set i u).tx i = some u := Function.update_self ..
    have hall : ∀ q ∈ qs, (written q.1).isSome = true := fun q hq => by
      rw [hwritten q hq]
      rfl
    rw [step, htx]
    exact if_pos ⟨rfl, hall⟩
  refine ⟨s', ?_, ?_, rfl, ?_, ?_⟩
  · rw [serial, exec, hstart, Option.bind_some, exec_append, hlock, Option.bind_some, exec, hfetch,
      Option.bind_some, exec_append, hupdate, Option.bind_some, exec, hcommit]
    rfl
  · funext k
    show (written k).or (s.rows k) = overlay qs (fun k => (s.rows k).map (claim c).write) s.rows k
    by_cases hk : k ∈ qs.map Prod.fst
    · obtain ⟨q, hq, rfl⟩ := List.mem_map.1 hk
      rw [hwritten q hq, overlay, if_pos hk, (hrows q hq).1]
      rfl
    · simp only [written, overlay, if_neg hk, Option.none_or]
  · show Function.update (Function.update s.tx i (some u)) i none = s.tx
    rw [Function.update_idem, ← hi, Function.update_eq_self]
  · intro k
    show (if overlay qs (fun _ => some i) s.owner k = some i then none
      else overlay qs (fun _ => some i) s.owner k) = none
    by_cases hk : k ∈ qs.map Prod.fst
    · simp [overlay, hk]
    · simp [overlay, hk, hfree k]

end SkipLocked
