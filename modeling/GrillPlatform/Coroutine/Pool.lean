import GrillPlatform.Coroutine.Prog
import Mathlib.Logic.Function.Basic
import Mathlib.Data.List.GetD

/-! A pool of coroutines over one shared world. The scheduler picks any task at every call, new
tasks arrive from outside, and a crash keeps only the world. -/

namespace Coroutine

structure Machine (S : Sig) (X : Type) where
  World : Type
  /-- What the environment decides at one step. -/
  Env : Type
  Name : Type
  body : Name → Prog S X Unit
  /-- The answer to a call of a task, the world after it, and the task it creates, if any. -/
  handle : Nat → Name → (op : S.Op) → Env → World → S.Resp op × World × Option Name
  /-- Tasks that may arrive from outside. -/
  external : Name → Bool
  /-- The task of a fresh process and the world it finds after a crash. -/
  boot : Name
  reboot : Env → World → World

variable {S : Sig} {X : Type}

structure Task (M : Machine S X) where
  name : M.Name
  prog : Prog S X Unit

def Task.spawn {M : Machine S X} (n : M.Name) : Task M := ⟨n, M.body n⟩

structure Pool (M : Machine S X) where
  world : M.World
  tasks : List (Task M)

inductive Label (M : Machine S X) where
  | run (i : Nat) (e : M.Env)
  | arrive (n : M.Name)
  | crash (e : M.Env)

namespace Pool
variable {M : Machine S X} {Γ : Type}

def boot (w : M.World) : Pool M := ⟨w, [Task.spawn M.boot]⟩

def after (p : Pool M) (i : Nat) (n : M.Name) (op : S.Op) (next : S.Resp op → Prog S X Unit)
    (e : M.Env) : Pool M :=
  let r := M.handle i n op e p.world
  ⟨r.2.1, p.tasks.set i ⟨n, next r.1⟩ ++ (r.2.2.map Task.spawn).toList⟩

def step (p : Pool M) : Label M → Option (Pool M)
  | .run i e =>
    match p.tasks[i]? with
    | some ⟨n, .call op next⟩ => some (p.after i n op next e)
    | _ => none
  | .arrive n => if M.external n then some ⟨p.world, p.tasks ++ [Task.spawn n]⟩ else none
  | .crash e => some (boot (M.reboot e p.world))

def Ended (p : Pool M) (i : Nat) : Prop := ∃ t ∈ p.tasks[i]?, t.prog.Ended

instance Ended.decidable (p : Pool M) (i : Nat) : Decidable (p.Ended i) :=
  inferInstanceAs (Decidable (∃ t ∈ p.tasks[i]?, t.prog.Ended))

theorem not_ended {p : Pool M} {i : Nat} {t : Task M} (h : p.tasks[i]? = some t)
    (ht : ¬ t.prog.Ended) : ¬ p.Ended i := by
  rintro ⟨t', ht', hended⟩
  cases h.symm.trans ht'
  exact ht hended

def exec (p : Pool M) : List (Label M) → Option (Pool M)
  | [] => some p
  | l :: ls => (p.step l).bind fun q => q.exec ls

/-- The pools an execution reaches when every step of it satisfies `C`. -/
inductive Reach (C : Pool M → Label M → Prop) (p₀ : Pool M) : Pool M → Prop
  | init : Reach C p₀ p₀
  | step {p q : Pool M} (l : Label M) : Reach C p₀ p → C p l → p.step l = some q → Reach C p₀ q

theorem step_cases {p q : Pool M} {l : Label M} (h : p.step l = some q) :
    (∃ i e n op next, l = .run i e ∧ p.tasks[i]? = some ⟨n, .call op next⟩ ∧
      q = p.after i n op next e) ∨
    (∃ n, l = .arrive n ∧ M.external n = true ∧ q = ⟨p.world, p.tasks ++ [Task.spawn n]⟩) ∨
    ∃ e, l = .crash e ∧ q = boot (M.reboot e p.world) := by
  cases l with
  | run i e =>
    simp only [step] at h
    split at h
    · rename_i n op next ht
      exact .inl ⟨i, e, n, op, next, rfl, ht, (Option.some.inj h).symm⟩
    · cases h
  | arrive n =>
    simp only [step] at h
    split at h
    · rename_i hn
      exact .inr (.inl ⟨n, rfl, hn, (Option.some.inj h).symm⟩)
    · cases h
  | crash e => exact .inr (.inr ⟨e, rfl, (Option.some.inj h).symm⟩)

theorem Reach.mono {C D : Pool M → Label M → Prop} (hC : ∀ p l, C p l → D p l) {p₀ p : Pool M}
    (h : Reach C p₀ p) : Reach D p₀ p := by
  induction h with
  | init => exact .init
  | step l _ hc hs ih => exact ih.step l (hC _ _ hc) hs

theorem Reach.trans {C : Pool M → Label M → Prop} {p₀ p q : Pool M} (h : Reach C p₀ p)
    (h' : Reach C p q) : Reach C p₀ q := by
  induction h' with
  | init => exact h
  | step l _ hc hs ih => exact ih.step l hc hs

theorem reach_of_exec {p₀ p : Pool M} (ls : List (Label M)) (h : p₀.exec ls = some p) :
    Reach (fun _ _ => True) p₀ p := by
  induction ls generalizing p₀ with
  | nil => cases h; exact .init
  | cons l ls ih =>
    obtain ⟨q, hq, hr⟩ := Option.bind_eq_some_iff.1 h
    exact (Reach.init.step l trivial hq).trans (ih hr)

theorem exec_append (p : Pool M) (ls ls' : List (Label M)) :
    p.exec (ls ++ ls') = (p.exec ls).bind fun q => q.exec ls' := by
  induction ls generalizing p with
  | nil => rfl
  | cons l ls ih =>
    simp only [List.cons_append, exec]
    cases p.step l with
    | none => rfl
    | some q => exact ih q

/-- Where a schedule leads; one that cannot be run leads nowhere. -/
def play (p : Pool M) (ls : List (Label M)) : Pool M := (p.exec ls).getD p

theorem exec_play (p : Pool M) (ls : List (Label M)) (h : (p.exec ls).isSome) :
    p.exec ls = some (p.play ls) := by
  obtain ⟨q, hq⟩ := Option.isSome_iff_exists.1 h
  rw [play, hq]; rfl

theorem reach_play (p : Pool M) (ls : List (Label M)) (h : (p.exec ls).isSome) :
    Reach (fun _ _ => True) p (p.play ls) := reach_of_exec ls (exec_play p ls h)

theorem step_play {p : Pool M} {ls : List (Label M)} {l : Label M}
    (h : (p.exec (ls ++ [l])).isSome) : (p.play ls).step l = some (p.play (ls ++ [l])) := by
  have hl := exec_play p _ h
  rw [exec_append] at hl
  obtain ⟨q, hq, hs⟩ := Option.bind_eq_some_iff.1 hl
  obtain ⟨q', hq', he⟩ := Option.bind_eq_some_iff.1 hs
  cases he
  rw [show p.play ls = q by rw [play, hq]; rfl, hq']

def Obeys (C : Pool M → Label M → Prop) (p : Pool M) : List (Label M) → Prop
  | [] => True
  | l :: ls => C p l ∧ ∀ q ∈ p.step l, q.Obeys C ls

instance Obeys.decidable (C : Pool M → Label M → Prop) [∀ p l, Decidable (C p l)] (p : Pool M)
    (ls : List (Label M)) : Decidable (p.Obeys C ls) :=
  match ls with
  | [] => isTrue trivial
  | l :: ls =>
    have : ∀ q : Pool M, Decidable (q.Obeys C ls) := fun q => Obeys.decidable C q ls
    inferInstanceAs (Decidable (C p l ∧ ∀ q ∈ p.step l, q.Obeys C ls))

theorem reach_of_obeys {C : Pool M → Label M → Prop} {p₀ p : Pool M} {ls : List (Label M)}
    (h : p₀.exec ls = some p) (hC : p₀.Obeys C ls) : Reach C p₀ p := by
  induction ls generalizing p₀ with
  | nil => cases h; exact .init
  | cons l ls ih =>
    obtain ⟨q, hq, hr⟩ := Option.bind_eq_some_iff.1 h
    exact (Reach.init.step l hC.1 hq).trans (ih hr (hC.2 q hq))

theorem reach_play_of_obeys {C : Pool M → Label M → Prop} (p : Pool M) (ls : List (Label M))
    (h : (p.exec ls).isSome) (hC : p.Obeys C ls) : Reach C p (p.play ls) :=
  reach_of_obeys (exec_play p ls h) hC

theorem obeys_true (p : Pool M) (ls : List (Label M)) : p.Obeys (fun _ _ => True) ls := by
  induction ls generalizing p with
  | nil => trivial
  | cons l ls ih => exact ⟨trivial, fun q _ => ih q⟩

theorem Obeys.append {C : Pool M → Label M → Prop} {p q : Pool M} {ls ls' : List (Label M)}
    (h : p.exec ls = some q) (hC : p.Obeys C ls) (hC' : q.Obeys C ls') : p.Obeys C (ls ++ ls') := by
  induction ls generalizing p with
  | nil =>
    cases h
    exact hC'
  | cons l ls ih =>
    obtain ⟨p₁, hs, hr⟩ := Option.bind_eq_some_iff.1 h
    refine ⟨hC.1, fun p₂ hs' => ?_⟩
    cases hs.symm.trans hs'
    exact ih hr (hC.2 _ hs)

theorem Obeys.and {C D : Pool M → Label M → Prop} {p : Pool M} {ls : List (Label M)}
    (hC : p.Obeys C ls) (hD : p.Obeys D ls) : p.Obeys (fun p l => C p l ∧ D p l) ls := by
  induction ls generalizing p with
  | nil => trivial
  | cons l ls ih => exact ⟨⟨hC.1, hD.1⟩, fun q hq => ih (hC.2 q hq) (hD.2 q hq)⟩

theorem Reach.invariant {C : Pool M → Label M → Prop} {p₀ p : Pool M} (h : Reach C p₀ p)
    {I : Pool M → Prop} (h₀ : I p₀)
    (hs : ∀ p q l, I p → C p l → p.step l = some q → I q) : I p := by
  induction h with
  | init => exact h₀
  | step l _ hc hst ih => exact hs _ _ l ih hc hst

theorem step_run {p : Pool M} {i : Nat} {n : M.Name} {op : S.Op}
    {next : S.Resp op → Prog S X Unit} {e : M.Env} (h : p.tasks[i]? = some ⟨n, .call op next⟩) :
    p.step (.run i e) = some (p.after i n op next e) := by
  rw [step, h]

theorem getElem?_after {p : Pool M} {i j : Nat} {n : M.Name} {op : S.Op}
    {next : S.Resp op → Prog S X Unit} {e : M.Env} {t : Task M}
    (h : (p.after i n op next e).tasks[j]? = some t) :
    (j = i ∧ t = ⟨n, next (M.handle i n op e p.world).1⟩) ∨ (j ≠ i ∧ p.tasks[j]? = some t) ∨
    (j = p.tasks.length ∧ ∃ m, (M.handle i n op e p.world).2.2 = some m ∧ t = Task.spawn m) := by
  simp only [after] at h
  by_cases hj : j < p.tasks.length
  · rw [List.getElem?_append_left (by simpa using hj), List.getElem?_set] at h
    split at h
    · rename_i hij
      rw [if_pos (hij ▸ hj)] at h
      exact .inl ⟨hij.symm, (Option.some.inj h).symm⟩
    · rename_i hij
      exact .inr (.inl ⟨fun he => hij he.symm, h⟩)
  · rw [List.getElem?_append_right (by simpa using hj), List.length_set] at h
    cases hm : (M.handle i n op e p.world).2.2 with
    | none => simp [hm] at h
    | some m =>
      simp only [hm, Option.map_some, Option.toList_some, List.getElem?_singleton] at h
      split at h
      · exact .inr (.inr ⟨by omega, m, rfl, (Option.some.inj h).symm⟩)
      · cases h

theorem getElem?_step {p q : Pool M} {l : Label M} {i : Nat} {t : Task M} (h : p.step l = some q)
    (hi : p.tasks[i]? = some t) (hr : ∀ e, l ≠ .run i e) (hc : ∀ e, l ≠ .crash e) :
    q.tasks[i]? = some t := by
  have hlt : i < p.tasks.length := (List.getElem?_eq_some_iff.1 hi).1
  rcases step_cases h with ⟨j, e, n, op, next, rfl, -, rfl⟩ | ⟨n, rfl, -, rfl⟩ | ⟨e, rfl, rfl⟩
  · have hne : j ≠ i := by
      rintro rfl
      exact hr e rfl
    rw [after, List.getElem?_append_left (by simpa using hlt), List.getElem?_set_ne hne, hi]
  · rw [List.getElem?_append_left hlt, hi]
  · exact absurd rfl (hc e)

theorem step_of_task {p q : Pool M} {l : Label M} {i : Nat} {t : Task M} (h : p.step l = some q)
    (hi : p.tasks[i]? = some t) :
    (∃ e n op next, l = .run i e ∧ t = ⟨n, .call op next⟩ ∧ q = p.after i n op next e) ∨
    (∃ j e, j ≠ i ∧ l = .run j e ∧ q.tasks[i]? = some t) ∨
    (∃ n, l = .arrive n ∧ q.tasks[i]? = some t ∧ q.world = p.world) ∨ ∃ e, l = .crash e := by
  rcases step_cases h with ⟨j, e, n, op, next, rfl, ht, rfl⟩ | ⟨n, rfl, -, rfl⟩ | ⟨e, rfl, -⟩
  · by_cases hj : j = i
    · subst hj
      exact .inl ⟨e, n, op, next, rfl, Option.some.inj (hi.symm.trans ht), rfl⟩
    · have hkept := getElem?_step h hi (fun e' he => hj (by cases he; rfl)) fun e' he => by cases he
      exact .inr (.inl ⟨j, e, hj, rfl, hkept⟩)
  · have hkept := getElem?_step h hi (fun e' he => by cases he) fun e' he => by cases he
    exact .inr (.inr (.inl ⟨n, rfl, hkept, rfl⟩))
  · exact .inr (.inr (.inr ⟨e, rfl⟩))

theorem getElem?_after_self {p : Pool M} {i : Nat} {n : M.Name} {op : S.Op}
    {next : S.Resp op → Prog S X Unit} {e : M.Env} {t : Task M} (hi : p.tasks[i]? = some t) :
    (p.after i n op next e).tasks[i]? = some ⟨n, next (M.handle i n op e p.world).1⟩ := by
  have hlt : i < p.tasks.length := (List.getElem?_eq_some_iff.1 hi).1
  rw [after, List.getElem?_append_left (by simpa using hlt), List.getElem?_set_self hlt]

theorem Ended.after {p : Pool M} {i j : Nat} {n : M.Name} {op : S.Op}
    {next : S.Resp op → Prog S X Unit} {e : M.Env} (h : p.Ended j)
    (hi : p.tasks[i]? = some ⟨n, .call op next⟩) : (p.after i n op next e).Ended j := by
  obtain ⟨t, ht, he⟩ := h
  have hne : i ≠ j := by
    rintro rfl
    cases hi.symm.trans ht
    exact he
  have hlt : j < p.tasks.length := (List.getElem?_eq_some_iff.1 ht).1
  refine ⟨t, ?_, he⟩
  rw [Pool.after, List.getElem?_append_left (by simpa using hlt), List.getElem?_set_ne hne]
  exact ht

theorem getElem?_arrive {p : Pool M} {n : M.Name} {j : Nat} {t : Task M}
    (h : (p.tasks ++ [Task.spawn n])[j]? = some t) :
    p.tasks[j]? = some t ∨ (j = p.tasks.length ∧ t = Task.spawn n) := by
  by_cases hj : j < p.tasks.length
  · rw [List.getElem?_append_left hj] at h
    exact .inl h
  · rw [List.getElem?_append_right (by omega), List.getElem?_singleton] at h
    split at h
    · exact .inr ⟨by omega, (Option.some.inj h).symm⟩
    · cases h

theorem getElem?_boot {w : M.World} {j : Nat} {t : Task M} (h : (boot w).tasks[j]? = some t) :
    j = 0 ∧ t = Task.spawn M.boot := by
  simp only [boot, List.getElem?_singleton] at h
  split at h
  · exact ⟨‹_›, (Option.some.inj h).symm⟩
  · cases h

def observe {β : Type} (note : Pool M → Label M → Pool M → β → β) (p : Pool M) (b : β) :
    List (Label M) → β
  | [] => b
  | l :: ls =>
    match p.step l with
    | none => b
    | some q => q.observe note (note p l q b) ls

theorem observe_invariant {β : Type} (note : Pool M → Label M → Pool M → β → β)
    {C : Pool M → Label M → Prop} {I : Pool M → β → Prop} {p₀ p : Pool M} {b₀ : β}
    {ls : List (Label M)} (h : p₀.exec ls = some p) (hC : p₀.Obeys C ls) (h₀ : I p₀ b₀)
    (hs : ∀ p q l b, Reach C p₀ p → I p b → C p l → p.step l = some q → I q (note p l q b)) :
    I p (p₀.observe note b₀ ls) := by
  have key : ∀ ls p₁ b, Reach C p₀ p₁ → I p₁ b → p₁.Obeys C ls → p₁.exec ls = some p →
      I p (p₁.observe note b ls) := by
    intro ls
    induction ls with
    | nil =>
      intro p₁ b _ hI _ he
      cases he
      exact hI
    | cons l ls ih =>
      intro p₁ b hr hI hC he
      obtain ⟨q, hq, he⟩ := Option.bind_eq_some_iff.1 he
      rw [observe, hq]
      exact ih q _ (hr.step l hC.1 hq) (hs p₁ q l b hr hI hC.1 hq) (hC.2 q hq) he
  exact key ls p₀ b₀ .init h₀ hC h

/-! How many steps are of a kind, and what they leave in a record, are notes of observers. -/

def count (P : Pool M → Pool M → Prop) [∀ p q, Decidable (P p q)] (p : Pool M) :
    List (Label M) → Nat
  | [] => 0
  | l :: ls =>
    match p.step l with
    | none => 0
    | some q => (if P p q then 1 else 0) + q.count P ls

theorem observe_count (P : Pool M → Pool M → Prop) [∀ p q, Decidable (P p q)] (p : Pool M) (n : Nat)
    (ls : List (Label M)) :
    p.observe (fun p _ q n => n + if P p q then 1 else 0) n ls = n + p.count P ls := by
  induction ls generalizing p n with
  | nil => rfl
  | cons l ls ih =>
    rw [observe, count]
    cases p.step l with
    | none => rfl
    | some q => exact (ih q _).trans (Nat.add_assoc ..)

theorem count_invariant {P : Pool M → Pool M → Prop} [∀ p q, Decidable (P p q)]
    {I : Pool M → Nat → Prop} {p₀ p : Pool M} {ls : List (Label M)} (h : p₀.exec ls = some p)
    (h₀ : I p₀ 0) (hs : ∀ p q l n, Reach (fun _ _ => True) p₀ p → I p n → p.step l = some q →
      I q (n + if P p q then 1 else 0)) : I p (p₀.count P ls) := by
  have hI := observe_invariant (fun p _ q n => n + if P p q then 1 else 0) h
    (obeys_true p₀ ls) h₀ fun p q l n hr hI _ => hs p q l n hr hI
  rwa [observe_count, Nat.zero_add] at hI

def trace {β : Type} (f : Pool M → Label M → Pool M → Option β) (p : Pool M) :
    List (Label M) → List β
  | [] => []
  | l :: ls =>
    match p.step l with
    | none => []
    | some q => (f p l q).toList ++ q.trace f ls

theorem observe_trace {β : Type} (f : Pool M → Label M → Pool M → Option β) (p : Pool M)
    (bs : List β) (ls : List (Label M)) :
    p.observe (fun p l q bs => bs ++ (f p l q).toList) bs ls = bs ++ p.trace f ls := by
  induction ls generalizing p bs with
  | nil => exact (List.append_nil bs).symm
  | cons l ls ih =>
    rw [observe, trace]
    cases p.step l with
    | none => exact (List.append_nil bs).symm
    | some q => exact (ih q _).trans (List.append_assoc ..)

theorem trace_invariant {β : Type} {f : Pool M → Label M → Pool M → Option β}
    {C : Pool M → Label M → Prop} {I : Pool M → List β → Prop} {p₀ p : Pool M} {ls : List (Label M)}
    (h : p₀.exec ls = some p) (hC : p₀.Obeys C ls) (h₀ : I p₀ [])
    (hs : ∀ p q l bs, Reach C p₀ p → I p bs → C p l → p.step l = some q →
      I q (bs ++ (f p l q).toList)) : I p (p₀.trace f ls) := by
  have hI := observe_invariant (fun p l q bs => bs ++ (f p l q).toList) h hC h₀ hs
  rwa [observe_trace, List.nil_append] at hI

theorem Reach.calls {C : Pool M → Label M → Prop} {w : M.World} {p : Pool M}
    (h : Reach C (boot w) p) {A : M.Name → S.Op → Prop} (hbody : ∀ n, (M.body n).Calls (A n))
    {i : Nat} {t : Task M} (ht : p.tasks[i]? = some t) : t.prog.Calls (A t.name) := by
  induction h generalizing i t with
  | init =>
    obtain ⟨-, rfl⟩ := getElem?_boot ht
    exact hbody _
  | step l _ _ hs ih =>
    rcases step_cases hs with ⟨j, e, n, op, next, rfl, hj, rfl⟩ | ⟨n, rfl, -, rfl⟩ | ⟨e, rfl, rfl⟩
    · rcases getElem?_after ht with ⟨rfl, rfl⟩ | ⟨-, ht⟩ | ⟨-, m, -, rfl⟩
      · exact (ih hj).2 _
      · exact ih ht
      · exact hbody m
    · rcases getElem?_arrive ht with ht | ⟨-, rfl⟩
      · exact ih ht
      · exact hbody n
    · obtain ⟨-, rfl⟩ := getElem?_boot ht
      exact hbody _

theorem Reach.begun {C : Pool M → Label M → Prop} {A : M.Name → S.Op → Prop} {w : M.World}
    {p : Pool M} (h : Reach C (boot w) p)
    (hbody : ∀ n op next, M.body n = .call op next → ∀ a, (next a).Calls (A n)) {i : Nat}
    {t : Task M} (ht : p.tasks[i]? = some t) : t.prog = M.body t.name ∨ t.prog.Calls (A t.name) := by
  induction h generalizing i t with
  | init =>
    obtain ⟨-, rfl⟩ := getElem?_boot ht
    exact .inl rfl
  | step l _ _ hs ih =>
    rcases step_cases hs with ⟨j, e, n, op, next, rfl, hj, rfl⟩ | ⟨n, rfl, -, rfl⟩ | ⟨e, rfl, rfl⟩
    · rcases getElem?_after ht with ⟨rfl, rfl⟩ | ⟨-, ht⟩ | ⟨-, m, -, rfl⟩
      · exact .inr ((ih hj).elim (fun hb => hbody n op next hb.symm _) fun hc => hc.2 _)
      · exact ih ht
      · exact .inl rfl
    · rcases getElem?_arrive ht with ht | ⟨-, rfl⟩
      · exact ih ht
      · exact .inl rfl
    · obtain ⟨-, rfl⟩ := getElem?_boot ht
      exact .inl rfl

/-! ## Ghost states -/

def Tracked (P : Protocol S Γ) (p : Pool M) (g : Nat → Γ) : Prop :=
  ∀ i (t : Task M), p.tasks[i]? = some t → t.prog.Follows P (fun _ _ => True) (g i)

def TrackedTo (P : Protocol S Γ) (Q : Γ → Except X Unit → Prop) (p : Pool M) (g : Nat → Γ) : Prop :=
  ∀ i (t : Task M), p.tasks[i]? = some t → t.prog.Follows P Q (g i)

/-- The ghost states after task `i` has run a call that may have created a task. -/
def ghost (P : Protocol S Γ) (start : M.Name → Γ) (g : Nat → Γ) (i : Nat) (op : S.Op)
    (r : S.Resp op) (len : Nat) (m : Option M.Name) : Nat → Γ := fun j =>
  if j = i then P.post (g i) op r else if j = len then (m.map start).getD (g j) else g j

theorem ghost_self {P : Protocol S Γ} {start : M.Name → Γ} {g : Nat → Γ} {i : Nat} {op : S.Op}
    {r : S.Resp op} {len : Nat} {m : Option M.Name} :
    ghost P start g i op r len m i = P.post (g i) op r := if_pos rfl

theorem ghost_other {P : Protocol S Γ} {start : M.Name → Γ} {g : Nat → Γ} {i j : Nat} {op : S.Op}
    {r : S.Resp op} {len : Nat} {m : Option M.Name} (hj : j ≠ i) (hl : j ≠ len) :
    ghost P start g i op r len m j = g j := by rw [ghost, if_neg hj, if_neg hl]

theorem ghost_new {P : Protocol S Γ} {start : M.Name → Γ} {g : Nat → Γ} {i : Nat} {op : S.Op}
    {r : S.Resp op} {len : Nat} {m : M.Name} (hi : i < len) :
    ghost P start g i op r len (some m) len = start m := by
  rw [ghost, if_neg (by omega), if_pos rfl]; rfl

theorem length_le_after (p : Pool M) (i : Nat) (n : M.Name) (op : S.Op)
    (next : S.Resp op → Prog S X Unit) (e : M.Env) :
    p.tasks.length ≤ (p.after i n op next e).tasks.length := by simp [after]

theorem lt_length_after {p : Pool M} {i j : Nat} {n : M.Name} {op : S.Op}
    {next : S.Resp op → Prog S X Unit} {e : M.Env}
    (hj : j < (p.after i n op next e).tasks.length) : j = i ∨ (j ≠ i ∧ j < p.tasks.length) ∨
      (j = p.tasks.length ∧ ∃ m, (M.handle i n op e p.world).2.2 = some m) := by
  rcases getElem?_after (List.getElem?_eq_getElem hj) with ⟨he, -⟩ | ⟨hne, ht⟩ | ⟨he, m, hm, -⟩
  · exact .inl he
  · exact .inr (.inl ⟨hne, (List.getElem?_eq_some_iff.1 ht).1⟩)
  · exact .inr (.inr ⟨he, m, hm⟩)

theorem update_cases {ts : List (Task M)} {t : Task M} {g : Nat → Γ} {γ : Γ} {j : Nat}
    (hj : j < (ts ++ [t]).length) :
    (j < ts.length ∧ Function.update g ts.length γ j = g j) ∨
      (j = ts.length ∧ Function.update g ts.length γ j = γ) := by
  rw [List.length_append, List.length_singleton] at hj
  by_cases hl : j = ts.length
  · subst hl
    exact .inr ⟨rfl, Function.update_self ..⟩
  · exact .inl ⟨by omega, Function.update_of_ne hl ..⟩

theorem lt_of_getElem? {p : Pool M} {i : Nat} {t : Task M} (h : p.tasks[i]? = some t) :
    i < p.tasks.length := (List.getElem?_eq_some_iff.1 h).1

theorem ghost_cases (P : Protocol S Γ) (start : M.Name → Γ) {p : Pool M} (g : Nat → Γ) {i j : Nat}
    {n : M.Name} {op : S.Op} {next : S.Resp op → Prog S X Unit} {e : M.Env}
    (hi : i < p.tasks.length) (hj : j < (p.after i n op next e).tasks.length) :
    let g' := ghost P start g i op (M.handle i n op e p.world).1 p.tasks.length
      (M.handle i n op e p.world).2.2
    (j = i ∧ g' j = P.post (g i) op (M.handle i n op e p.world).1) ∨
    (j ≠ i ∧ j < p.tasks.length ∧ g' j = g j) ∨
    (j = p.tasks.length ∧ ∃ m, (M.handle i n op e p.world).2.2 = some m ∧ g' j = start m) := by
  rcases lt_length_after hj with rfl | ⟨hne, hlt⟩ | ⟨rfl, m, hm⟩
  · exact .inl ⟨rfl, ghost_self⟩
  · exact .inr (.inl ⟨hne, hlt, ghost_other hne (Nat.ne_of_lt hlt)⟩)
  · exact .inr (.inr ⟨rfl, m, hm, by rw [hm]; exact ghost_new hi⟩)

section
variable {P : Protocol S Γ} {Q : Γ → Except X Unit → Prop} {start : M.Name → Γ}

theorem TrackedTo.after {p : Pool M} {g : Nat → Γ} (h : TrackedTo P Q p g)
    (hbody : ∀ n, (M.body n).Follows P Q (start n))
    {i : Nat} {n : M.Name} {op : S.Op} {next : S.Resp op → Prog S X Unit} (e : M.Env)
    (hi : p.tasks[i]? = some ⟨n, .call op next⟩) :
    TrackedTo P Q (p.after i n op next e) (ghost P start g i op (M.handle i n op e p.world).1
      p.tasks.length (M.handle i n op e p.world).2.2) := by
  have hlt := lt_of_getElem? hi
  intro j t ht
  rcases getElem?_after ht with ⟨rfl, rfl⟩ | ⟨hj, ht⟩ | ⟨rfl, m, hm, rfl⟩
  · rw [ghost_self]
    exact (h j _ hi).2 _
  · rw [ghost_other hj (Nat.ne_of_lt (lt_of_getElem? ht))]
    exact h j t ht
  · rw [hm, ghost_new hlt]
    exact hbody m

theorem TrackedTo.arrive {p : Pool M} {g : Nat → Γ} (h : TrackedTo P Q p g)
    (hbody : ∀ n, (M.body n).Follows P Q (start n)) (n : M.Name) :
    TrackedTo P Q ⟨p.world, p.tasks ++ [Task.spawn n]⟩
      (Function.update g p.tasks.length (start n)) := by
  intro j t hj
  rcases getElem?_arrive hj with hj | ⟨rfl, rfl⟩
  · rw [Function.update_of_ne (Nat.ne_of_lt (lt_of_getElem? hj))]
    exact h j t hj
  · rw [Function.update_self]
    exact hbody n

theorem TrackedTo.boot (w : M.World) (hbody : ∀ n, (M.body n).Follows P Q (start n)) :
    TrackedTo P Q (boot w) fun _ => start M.boot := by
  intro j t ht
  obtain ⟨_, rfl⟩ := getElem?_boot ht
  exact hbody _

theorem Tracked.boot {start : M.Name → Γ} (w : M.World)
    (hbody : ∀ n, (M.body n).Follows P (fun _ _ => True) (start n)) :
    Tracked P (boot w) fun _ => start M.boot := TrackedTo.boot w hbody

theorem TrackedTo.ended {p : Pool M} {g : Nat → Γ} (h : TrackedTo P Q p g) {i : Nat}
    (hi : p.Ended i) : ∃ e, Q (g i) e := by
  obtain ⟨t, ht, he⟩ := hi
  exact (h i t ht).of_ended he

/-- An invariant between the world and the ghost states of the tasks. One call of one task is the
only step that has to be looked at; arrivals and crashes start from fresh ghost states. -/
theorem Reach.trackedTo {C : Pool M → Label M → Prop} {p₀ p : Pool M} (h : Reach C p₀ p)
    (hbody : ∀ n, (M.body n).Follows P Q (start n))
    (J : Pool M → (Nat → Γ) → Prop) (h₀ : ∃ g, TrackedTo P Q p₀ g ∧ J p₀ g)
    (hrun : ∀ p g i e n op next, TrackedTo P Q p g → J p g →
      p.tasks[i]? = some ⟨n, .call op next⟩ → P.pre (g i) op → C p (.run i e) →
      J (p.after i n op next e) (ghost P start g i op (M.handle i n op e p.world).1
        p.tasks.length (M.handle i n op e p.world).2.2))
    (harrive : ∀ p g n, J p g → M.external n = true → C p (.arrive n) →
      J ⟨p.world, p.tasks ++ [Task.spawn n]⟩ (Function.update g p.tasks.length (start n)))
    (hcrash : ∀ p g e, J p g → C p (.crash e) →
      J (boot (M.reboot e p.world)) fun _ => start M.boot) :
    ∃ g, TrackedTo P Q p g ∧ J p g := by
  induction h with
  | init => exact h₀
  | @step p q l _ hc hs ih =>
    obtain ⟨g, ht, hJ⟩ := ih
    rcases step_cases hs with ⟨i, e, n, op, next, rfl, hi, rfl⟩ | ⟨n, rfl, hn, rfl⟩ | ⟨e, rfl, rfl⟩
    · exact ⟨_, ht.after hbody e hi, hrun p g i e n op next ht hJ hi (ht i _ hi).1 hc⟩
    · exact ⟨_, ht.arrive hbody n, harrive p g n hJ hn hc⟩
    · exact ⟨_, TrackedTo.boot _ hbody, hcrash p g e hJ hc⟩

theorem Reach.tracked {C : Pool M → Label M → Prop} {p₀ p : Pool M} (h : Reach C p₀ p)
    (P : Protocol S Γ) (start : M.Name → Γ)
    (hbody : ∀ n, (M.body n).Follows P (fun _ _ => True) (start n))
    (J : Pool M → (Nat → Γ) → Prop) (h₀ : ∃ g, Tracked P p₀ g ∧ J p₀ g)
    (hrun : ∀ p g i e n op next, Tracked P p g → J p g →
      p.tasks[i]? = some ⟨n, .call op next⟩ → P.pre (g i) op → C p (.run i e) →
      J (p.after i n op next e) (ghost P start g i op (M.handle i n op e p.world).1
        p.tasks.length (M.handle i n op e p.world).2.2))
    (harrive : ∀ p g n, J p g → M.external n = true → C p (.arrive n) →
      J ⟨p.world, p.tasks ++ [Task.spawn n]⟩ (Function.update g p.tasks.length (start n)))
    (hcrash : ∀ p g e, J p g → C p (.crash e) →
      J (boot (M.reboot e p.world)) fun _ => start M.boot) :
    ∃ g, Tracked P p g ∧ J p g := h.trackedTo hbody J h₀ hrun harrive hcrash

end

end Pool

end Coroutine
