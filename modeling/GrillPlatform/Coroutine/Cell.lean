import GrillPlatform.Coroutine.Pool
import Mathlib.Data.List.Lattice

/-! A value that tasks read, change and write back. Overlapping edits lose edits, and do nothing
else; edits that do not overlap take effect one after another. -/

namespace Coroutine
variable {S : Sig} {X V U : Type}

/-- A part of the world that is only ever rewritten from what has been read of it. -/
structure Cell (M : Machine S X) (V U : Type) where
  value : M.World → V
  apply : V → U → V
  reads : S.Op → Bool
  /-- The value an answer carries. -/
  seen : (op : S.Op) → S.Resp op → Option V
  /-- The value a call writes, and the edit that led to it. -/
  writes : S.Op → Option (V × U)
  lands : M.Env → Bool
  /-- The call has nothing to do with the value, or only reads it. -/
  leaves : S.Op → Bool
  /-- Answers that do not come. -/
  never : (op : S.Op) → S.Resp op → Bool
  seen_reads : ∀ op r v, seen op r = some v → reads op = true
  seen_value : ∀ i n op e w v, seen op (M.handle i n op e w).1 = some v → v = value w
  leaves_writes : ∀ op, leaves op = true → writes op = none
  value_write : ∀ i n op e w v u, writes op = some (v, u) →
    value (M.handle i n op e w).2.1 = if lands e then v else value w
  value_kept : ∀ i n op e w, leaves op = true → value (M.handle i n op e w).2.1 = value w
  value_reboot : ∀ e w, value (M.reboot e w) = value w
  answered : ∀ i n op e w, never op (M.handle i n op e w).1 = false

/-- What a task is doing to the cell. -/
inductive Editing (V : Type) where
  | idle
  | holding (v : V)
  | stray

namespace Cell
variable {M : Machine S X} (c : Cell M V U)

def allows : Editing V → S.Op → Prop
  | .idle, op => c.leaves op = true
  | .holding v, op => ∃ u, c.writes op = some (c.apply v u, u)
  | .stray, _ => True

def continues (γ : Editing V) (op : S.Op) (r : S.Resp op) : Editing V :=
  if c.never op r then .stray
  else match γ with
    | .stray => .stray
    | .holding _ => .idle
    | .idle => (c.seen op r).elim .idle .holding

/-- A task writes at once after it has read, and only then. -/
def editing : Protocol S (Editing V) := ⟨c.allows, c.continues⟩

section
variable {c : Cell M V U} {op : S.Op} {r : S.Resp op} {v : V}

theorem post_stray : c.editing.post .stray op r = .stray := ite_self _

theorem post_never (h : c.never op r = true) (γ : Editing V) : c.editing.post γ op r = .stray :=
  if_pos h

theorem post_holding (h : c.never op r = false) : c.editing.post (.holding v) op r = .idle :=
  if_neg (h ▸ Bool.false_ne_true)

theorem post_idle (h : c.never op r = false) :
    c.editing.post .idle op r = (c.seen op r).elim .idle .holding :=
  if_neg (h ▸ Bool.false_ne_true)

end

def edit (p : Pool M) (l : Label M) (_ : Pool M) : Option U :=
  match l with
  | .run i e =>
    match p.tasks[i]? with
    | some ⟨_, .call op _⟩ => if c.lands e then (c.writes op).map (·.2) else none
    | _ => none
  | _ => none

def edits (p : Pool M) (ls : List (Label M)) : List U := p.trace c.edit ls

def reading : Option (Task M) → Bool
  | some ⟨_, .call op _⟩ => c.reads op
  | _ => false

def writing (t : Task M) : Bool :=
  match t.prog with
  | .call op _ => (c.writes op).isSome
  | _ => false

/-- No task reads while another is about to write. -/
def Apart (p : Pool M) : Label M → Prop
  | .run i _ => c.reading p.tasks[i]? = true → ∀ t ∈ p.tasks, c.writing t = false
  | _ => True

instance Apart.decidable (p : Pool M) : (l : Label M) → Decidable (c.Apart p l)
  | .run i _ => inferInstanceAs (Decidable (c.reading p.tasks[i]? = true → _))
  | .arrive _ | .crash _ => isTrue trivial

variable {c} {p : Pool M} {i : Nat} {n : M.Name} {op : S.Op} {next : S.Resp op → Prog S X Unit}
  {e : M.Env} {γ : Editing V}

theorem edit_run (h : p.tasks[i]? = some ⟨n, .call op next⟩) (q : Pool M) :
    c.edit p (.run i e) q = if c.lands e then (c.writes op).map (·.2) else none := by
  rw [edit, h]

theorem apart_run (h : p.tasks[i]? = some ⟨n, .call op next⟩) :
    c.Apart p (.run i e) ↔ (c.reads op = true → ∀ t ∈ p.tasks, c.writing t = false) := by
  rw [Apart, h, reading]

variable (p i n next e) in
theorem call_cases (hγ : γ ≠ .stray) (h : c.allows γ op) :
    (c.writes op = none ∧ γ = .idle ∧ c.value (p.after i n op next e).world = c.value p.world ∧
      (c.editing.post γ op (M.handle i n op e p.world).1 = .idle ∨ c.reads op = true ∧
        c.editing.post γ op (M.handle i n op e p.world).1 = .holding (c.value p.world))) ∨
    ∃ v u, γ = .holding v ∧ c.writes op = some (c.apply v u, u) ∧
      c.editing.post γ op (M.handle i n op e p.world).1 = .idle ∧
      c.value (p.after i n op next e).world =
        if c.lands e then c.apply v u else c.value p.world := by
  have hnever := c.answered i n op e p.world
  cases γ with
  | stray => exact absurd rfl hγ
  | idle =>
    refine .inl ⟨c.leaves_writes op h, rfl, c.value_kept i n op e p.world h, ?_⟩
    rw [post_idle hnever]
    cases hs : c.seen op (M.handle i n op e p.world).1 with
    | none => exact .inl rfl
    | some v =>
      rw [← c.seen_value i n op e p.world v hs]
      exact .inr ⟨c.seen_reads op _ v hs, rfl⟩
  | holding v =>
    obtain ⟨u, hu⟩ := h
    exact .inr ⟨v, u, rfl, hu, post_holding hnever, c.value_write i n op e p.world _ u hu⟩

end Cell

namespace Pool
variable {M : Machine S X} {Γ β : Type} {P : Protocol S Γ}

theorem trace_tracked (f : Pool M → Label M → Pool M → Option β) (start : M.Name → Γ)
    {C : Pool M → Label M → Prop}
    {p₀ p : Pool M} {ls : List (Label M)} (h : p₀.exec ls = some p) (hC : p₀.Obeys C ls)
    (hbody : ∀ n, (M.body n).Follows P (fun _ _ => True) (start n))
    (J : Pool M → (Nat → Γ) → List β → Prop) (h₀ : ∃ g, Tracked P p₀ g ∧ J p₀ g [])
    (hrun : ∀ p g bs i e n op next, Tracked P p g → J p g bs →
      p.tasks[i]? = some ⟨n, .call op next⟩ → P.pre (g i) op → C p (.run i e) →
      J (p.after i n op next e) (ghost P start g i op (M.handle i n op e p.world).1
        p.tasks.length (M.handle i n op e p.world).2.2)
        (bs ++ (f p (.run i e) (p.after i n op next e)).toList))
    (harrive : ∀ p g bs n, J p g bs → M.external n = true → C p (.arrive n) →
      J ⟨p.world, p.tasks ++ [Task.spawn n]⟩ (Function.update g p.tasks.length (start n))
        (bs ++ (f p (.arrive n) ⟨p.world, p.tasks ++ [Task.spawn n]⟩).toList))
    (hcrash : ∀ p g bs e, J p g bs → C p (.crash e) →
      J (boot (M.reboot e p.world)) (fun _ => start M.boot)
        (bs ++ (f p (.crash e) (boot (M.reboot e p.world))).toList)) :
    ∃ g, Tracked P p g ∧ J p g (p₀.trace f ls) := by
  refine trace_invariant (I := fun p bs => ∃ g, Tracked P p g ∧ J p g bs) h hC h₀ ?_
  rintro p q l bs - ⟨g, ht, hJ⟩ hc hs
  rcases step_cases hs with ⟨i, e, n, op, next, rfl, hi, rfl⟩ | ⟨n, rfl, hn, rfl⟩ | ⟨e, rfl, rfl⟩
  · exact ⟨_, TrackedTo.after ht hbody e hi, hrun p g bs i e n op next ht hJ hi (ht i _ hi).1 hc⟩
  · exact ⟨_, TrackedTo.arrive ht hbody n, harrive p g bs n hJ hn hc⟩
  · exact ⟨_, TrackedTo.boot _ hbody, hcrash p g bs e hJ hc⟩

end Pool

namespace Cell
variable {M : Machine S X} {c : Cell M V U} {w : M.World} {p : Pool M} {ls : List (Label M)}

/-- The value is that of edits of the record which are kept in their order, the last of them
among them; so is what every task holds. -/
structure Thinned (c : Cell M V U) (v₀ : V) (p : Pool M) (g : Nat → Editing V) (us : List U) :
    Prop where
  value : ∃ ks : List U, ks.Sublist us ∧ ks.getLast? = us.getLast? ∧
  c.value p.world = ks.foldl c.apply v₀
  held : ∀ j < p.tasks.length, g j ≠ .stray ∧ ∀ v, g j = .holding v →
    ∃ ks : List U, ks.Sublist us ∧ v = ks.foldl c.apply v₀

/-- Every edit of the record has taken effect, and at most one task is about to write, with an edit
of the present value. -/
structure Serial (c : Cell M V U) (v₀ : V) (p : Pool M) (g : Nat → Editing V) (us : List U) :
    Prop where
  value : c.value p.world = us.foldl c.apply v₀
  tame : ∀ j < p.tasks.length, g j ≠ .stray
  held : ∀ (j : Nat) (t : Task M) v, p.tasks[j]? = some t → c.writing t = true →
    g j = .holding v → v = c.value p.world
  alone : ∀ (j k : Nat) (t t' : Task M), p.tasks[j]? = some t → p.tasks[k]? = some t' →
    c.writing t = true → c.writing t' = true → j = k

theorem sublist_append {us ks : List U} (o : Option U) (h : ks.Sublist us) :
    ks.Sublist (us ++ o.toList) := h.trans (List.sublist_append_left ..)

theorem thinned_run {v₀ : V} {g : Nat → Editing V} {us : List U} {i : Nat} {e : M.Env} {n : M.Name}
    {op : S.Op} {next : S.Resp op → Prog S X Unit} (hJ : Thinned c v₀ p g us)
    (hi : p.tasks[i]? = some ⟨n, .call op next⟩) (hpre : c.editing.pre (g i) op) :
    Thinned c v₀ (p.after i n op next e) (Pool.ghost c.editing (fun _ => .idle) g i op
      (M.handle i n op e p.world).1 p.tasks.length (M.handle i n op e p.world).2.2)
      (us ++ (c.edit p (.run i e) (p.after i n op next e)).toList) := by
  have hlt := Pool.lt_of_getElem? hi
  obtain ⟨hstray, hheld⟩ := hJ.held i hlt
  have hcall := call_cases p i n next e hstray hpre
  rw [edit_run hi]
  refine ⟨?_, fun j hj => ?_⟩
  · rcases hcall with ⟨hw, -, hv, -⟩ | ⟨v, u, hg, hw, -, hv⟩
    · rw [hw, hv]
      simpa using hJ.value
    · rw [hw, hv]
      obtain ⟨ks, hks, rfl⟩ := hheld v hg
      cases c.lands e with
      | false => simpa using hJ.value
      | true => exact ⟨ks ++ [u], hks.append_right [u], by simp, by simp⟩
  · rcases Pool.ghost_cases c.editing (fun _ => Editing.idle) g hlt hj with
      ⟨rfl, hg⟩ | ⟨-, hj, hg⟩ | ⟨rfl, m, -, hg⟩
    · rw [hg]
      rcases hcall with ⟨hw, -, -, hnext | ⟨-, hnext⟩⟩ | ⟨v, u, -, hw, hnext, -⟩
      · rw [hnext]
        exact ⟨nofun, nofun⟩
      · rw [hnext]
        refine ⟨nofun, fun v hv => ?_⟩
        obtain ⟨ks, hks, -, hval⟩ := hJ.value
        cases hv
        exact ⟨ks, sublist_append _ hks, hval⟩
      · rw [hnext]
        exact ⟨nofun, nofun⟩
    · rw [hg]
      refine ⟨(hJ.held j hj).1, fun v hv => ?_⟩
      obtain ⟨ks, hks, hval⟩ := (hJ.held j hj).2 v hv
      exact ⟨ks, sublist_append _ hks, hval⟩
    · rw [hg]
      exact ⟨nofun, nofun⟩

/-- In every execution the cell is what a part of the edits leaves, the last edit included. -/
theorem value_thinned (hbody : ∀ n, (M.body n).Follows c.editing (fun _ _ => True) .idle)
    (h : (Pool.boot w).exec ls = some p) :
    ∃ ks : List U, ks.Sublist (c.edits (.boot w) ls) ∧
      ks.getLast? = (c.edits (.boot w) ls).getLast? ∧
      c.value p.world = ks.foldl c.apply (c.value w) := by
  have hinv := Pool.trace_tracked c.edit (fun _ => .idle) h
    (Pool.obeys_true _ ls) hbody (Thinned c (c.value w))
    ⟨_, Pool.Tracked.boot w hbody, ⟨[], .slnil, rfl, rfl⟩, fun _ _ => ⟨nofun, nofun⟩⟩
    (fun p g us i e n op next _ hJ hi hpre _ => thinned_run hJ hi hpre) ?_ ?_
  · obtain ⟨g, -, hJ⟩ := hinv
    exact hJ.value
  · intro p g us n hJ _ _
    rw [show c.edit p (.arrive n) _ = none from rfl, Option.toList_none, List.append_nil]
    refine ⟨hJ.value, fun j hj => ?_⟩
    rcases Pool.update_cases hj with ⟨hj, hg⟩ | ⟨rfl, hg⟩
    · rw [hg]
      exact hJ.held j hj
    · rw [hg]
      exact ⟨nofun, nofun⟩
  · intro p g us e hJ _
    rw [show c.edit p (.crash e) _ = none from rfl, Option.toList_none, List.append_nil]
    refine ⟨?_, fun _ _ => ⟨nofun, nofun⟩⟩
    rw [show c.value (Pool.boot (M.reboot e p.world)).world = _ from c.value_reboot e p.world]
    exact hJ.value

theorem not_writing {t : Task M} (h : t.prog.Follows c.editing (fun _ _ => True) .idle) :
    c.writing t = false := by
  unfold writing
  split
  · rename_i op next hprog
    rw [hprog] at h
    have hnone := c.leaves_writes op h.1
    rw [hnone]
    rfl
  · rfl

theorem serial_run {v₀ : V} {g : Nat → Editing V} {us : List U} {i : Nat} {e : M.Env} {n : M.Name}
    {op : S.Op} {next : S.Resp op → Prog S X Unit}
    (hbody : ∀ n, (M.body n).Follows c.editing (fun _ _ => True) .idle)
    (ht : Pool.Tracked c.editing p g) (hJ : Serial c v₀ p g us)
    (hi : p.tasks[i]? = some ⟨n, .call op next⟩) (hpre : c.editing.pre (g i) op)
    (hC : c.Apart p (.run i e)) :
    Serial c v₀ (p.after i n op next e) (Pool.ghost c.editing (fun _ => .idle) g i op
      (M.handle i n op e p.world).1 p.tasks.length (M.handle i n op e p.world).2.2)
      (us ++ (c.edit p (.run i e) (p.after i n op next e)).toList) := by
  have hlt := Pool.lt_of_getElem? hi
  have hcall := call_cases p i n next e (hJ.tame i hlt) hpre
  have hself : (p.after i n op next e).tasks[i]? = some ⟨n, next (M.handle i n op e p.world).1⟩ :=
    Pool.getElem?_after_self hi
  have hfollows := Pool.TrackedTo.after ht hbody e hi i _ hself
  have hghost : Pool.ghost c.editing (fun _ => .idle) g i op (M.handle i n op e p.world).1
      p.tasks.length (M.handle i n op e p.world).2.2 i =
      c.editing.post (g i) op (M.handle i n op e p.world).1 := Pool.ghost_self
  -- a task that is about to write is the caller, or was about to write before
  have hwriter : ∀ (j : Nat) (t : Task M), (p.after i n op next e).tasks[j]? = some t →
      c.writing t = true → j = i ∨ j ≠ i ∧ p.tasks[j]? = some t := by
    intro j t hj hw
    rcases Pool.getElem?_after hj with ⟨rfl, -⟩ | ⟨hne, hj⟩ | ⟨-, m, -, rfl⟩
    · exact .inl rfl
    · exact .inr ⟨hne, hj⟩
    · rw [not_writing (hbody m)] at hw
      cases hw
  -- a caller that ends up idle is not about to write
  have hidle : c.editing.post (g i) op (M.handle i n op e p.world).1 = .idle →
      ∀ t, (p.after i n op next e).tasks[i]? = some t → c.writing t = false := by
    intro hnext t hi'
    cases hself.symm.trans hi'
    rw [hghost, hnext] at hfollows
    exact not_writing hfollows
  have htame : ∀ j < (p.after i n op next e).tasks.length, Pool.ghost c.editing
      (fun _ => Editing.idle) g i op (M.handle i n op e p.world).1 p.tasks.length
      (M.handle i n op e p.world).2.2 j ≠ .stray := by
    intro j hj
    rcases Pool.ghost_cases c.editing (fun _ => Editing.idle) g hlt hj with
      ⟨-, hg⟩ | ⟨-, hj, hg⟩ | ⟨-, m, -, hg⟩
    · rw [hg]
      rcases hcall with ⟨-, -, -, hnext | ⟨-, hnext⟩⟩ | ⟨v, u, -, -, hnext, -⟩ <;>
        rw [hnext] <;> nofun
    · rw [hg]
      exact hJ.tame j hj
    · rw [hg]
      nofun
  have hother : ∀ {j : Nat} {t : Task M}, j ≠ i → p.tasks[j]? = some t → Pool.ghost c.editing
      (fun _ => Editing.idle) g i op (M.handle i n op e p.world).1 p.tasks.length
      (M.handle i n op e p.world).2.2 j = g j := fun hne hj =>
    Pool.ghost_other hne (Nat.ne_of_lt (Pool.lt_of_getElem? hj))
  rw [edit_run hi]
  rcases hcall with ⟨hw, -, hv, hnext⟩ | ⟨v, u, hg, hw, hnext, hv⟩
  · rw [hw, Option.map_none, ite_self, Option.toList_none, List.append_nil]
    rcases hnext with hnext | ⟨hr, hnext⟩
    -- the cell is not touched
    · refine ⟨hv.trans hJ.value, htame, fun j t v hj hwr hg => ?_, fun j k t t' hj hk ht ht' => ?_⟩
      · rcases hwriter j t hj hwr with rfl | ⟨hne, hj⟩
        · cases (hidle hnext t hj).symm.trans hwr
        · rw [hother hne hj] at hg
          exact (hJ.held j t v hj hwr hg).trans hv.symm
      · rcases hwriter j t hj ht with rfl | ⟨-, hj⟩
        · cases (hidle hnext t hj).symm.trans ht
        rcases hwriter k t' hk ht' with rfl | ⟨-, hk⟩
        · cases (hidle hnext t' hk).symm.trans ht'
        exact hJ.alone j k t t' hj hk ht ht'
    -- the value is read while nobody is about to write
    · have hquiet := (apart_run hi).1 hC hr
      have hnone : ∀ {j : Nat} {t : Task M}, p.tasks[j]? = some t → c.writing t = true → False :=
        fun hj hwr => Bool.false_ne_true ((hquiet _ (List.mem_of_getElem? hj)).symm.trans hwr)
      refine ⟨hv.trans hJ.value, htame, fun j t v hj hwr hg => ?_, fun j k t t' hj hk ht ht' => ?_⟩
      · rcases hwriter j t hj hwr with rfl | ⟨-, hj⟩
        · rw [hghost, hnext] at hg
          cases hg
          exact hv.symm
        · exact (hnone hj hwr).elim
      · rcases hwriter j t hj ht with rfl | ⟨-, hj⟩
        · rcases hwriter k t' hk ht' with rfl | ⟨-, hk⟩
          · rfl
          · exact (hnone hk ht').elim
        · exact (hnone hj ht).elim
  -- the caller is the one task about to write
  · have hcaller : c.writing ⟨n, .call op next⟩ = true := by
      show (c.writes op).isSome = true
      rw [hw]
      rfl
    have hnone : ∀ {j : Nat} {t : Task M}, j ≠ i → p.tasks[j]? = some t → c.writing t = true →
        False := fun hne hj hwr => hne (hJ.alone _ i _ _ hj hi hwr hcaller)
    have hnobody : ∀ (j : Nat) (t : Task M), (p.after i n op next e).tasks[j]? = some t →
        c.writing t = true → False := by
      intro j t hj hwr
      rcases hwriter j t hj hwr with rfl | ⟨hne, hj⟩
      · cases (hidle hnext t hj).symm.trans hwr
      · exact hnone hne hj hwr
    refine ⟨?_, htame, fun j t v hj hwr _ => (hnobody j t hj hwr).elim,
      fun j _ t _ hj _ hwr _ => (hnobody j t hj hwr).elim⟩
    rw [hv, hw]
    have hpresent := hJ.held i _ v hi hcaller hg
    cases c.lands e with
    | false => simpa using hJ.value
    | true => simp [hpresent, hJ.value]

/-- When nobody reads while another task is about to write, every edit takes effect, one after
another. -/
theorem value_serial (hbody : ∀ n, (M.body n).Follows c.editing (fun _ _ => True) .idle)
    (h : (Pool.boot w).exec ls = some p) (hC : (Pool.boot w).Obeys c.Apart ls) :
    c.value p.world = (c.edits (.boot w) ls).foldl c.apply (c.value w) := by
  have hboot : ∀ w v₀ us, c.value w = us.foldl c.apply v₀ →
      Serial c v₀ (Pool.boot w) (fun _ => .idle) us := fun w v₀ us hv => by
    have hnone : ∀ (j : Nat) (t : Task M), (Pool.boot w).tasks[j]? = some t →
        c.writing t = true → False := by
      intro j t hj hwr
      obtain ⟨-, rfl⟩ := Pool.getElem?_boot hj
      cases (not_writing (hbody _)).symm.trans hwr
    exact ⟨hv, fun _ _ => nofun, fun j t _ hj hwr => (hnone j t hj hwr).elim,
      fun j _ t _ hj _ hwr => (hnone j t hj hwr).elim⟩
  have hinv := Pool.trace_tracked c.edit (fun _ => .idle) h hC hbody
    (Serial c (c.value w)) ⟨_, Pool.Tracked.boot w hbody, hboot w _ [] rfl⟩
    (fun p g us i e n op next ht hJ hi hpre hC => serial_run hbody ht hJ hi hpre hC) ?_ ?_
  · obtain ⟨g, -, hJ⟩ := hinv
    exact hJ.value
  · intro p g us n hJ _ _
    rw [show c.edit p (.arrive n) _ = none from rfl, Option.toList_none, List.append_nil]
    have hold : ∀ (j : Nat) (t : Task M), (p.tasks ++ [Task.spawn n])[j]? = some t →
        c.writing t = true → p.tasks[j]? = some t := by
      intro j t hj hwr
      rcases Pool.getElem?_arrive hj with hj | ⟨-, rfl⟩
      · exact hj
      · cases (not_writing (hbody n)).symm.trans hwr
    refine ⟨hJ.value, fun j hj => ?_, fun j t v hj hwr hg => ?_, fun j k t t' hj hk ht ht' =>
      hJ.alone j k t t' (hold j t hj ht) (hold k t' hk ht') ht ht'⟩
    · rcases Pool.update_cases hj with ⟨hj, hg⟩ | ⟨rfl, hg⟩
      · rw [hg]
        exact hJ.tame j hj
      · rw [hg]
        nofun
    · have hj' := hold j t hj hwr
      rw [Function.update_of_ne (Nat.ne_of_lt (Pool.lt_of_getElem? hj'))] at hg
      exact hJ.held j t v hj' hwr hg
  · intro p g us e hJ _
    rw [show c.edit p (.crash e) _ = none from rfl, Option.toList_none, List.append_nil]
    exact hboot _ _ us ((c.value_reboot e p.world).trans hJ.value)

end Cell
end Coroutine
