import GrillPlatform.Coroutine.Pool

/-! Conditions on what tasks are in the middle of. A watch follows every task through a protocol,
and a condition on a step may speak of the ghost states of all tasks. -/

namespace Coroutine
variable {S : Sig} {X : Type}

/-- A protocol with the ghost state each task starts from and those it may end in; every task keeps
it. -/
structure Watch (M : Machine S X) (Γ : Type) where
  protocol : Protocol S Γ
  start : M.Name → Γ
  ends : Γ → Except X Unit → Prop := fun _ _ => True
  follows : ∀ n, (M.body n).Follows protocol ends (start n)

namespace Prog
variable {Γ Δ α : Type}

theorem follows_prod {P : Protocol S Γ} {Q : Protocol S Δ} {R : Γ → Except X α → Prop}
    {T : Δ → Except X α → Prop} {p : Prog S X α} {γ : Γ} {δ : Δ}
    (hP : p.Follows P R γ) (hQ : p.Follows Q T δ) :
    p.Follows ⟨fun γ op => P.pre γ.1 op ∧ Q.pre γ.2 op, fun γ op r =>
      (P.post γ.1 op r, Q.post γ.2 op r)⟩ (fun γ e => R γ.1 e ∧ T γ.2 e) (γ, δ) := by
  induction p generalizing γ δ with
  | pure | raise => exact ⟨hP, hQ⟩
  | call op next ih => exact ⟨⟨hP.1, hQ.1⟩, fun r => ih r (hP.2 r) (hQ.2 r)⟩

/-- A loop keeps what holds of the elements that are left. -/
theorem follows_forEach {β : Type} {P : Protocol S Γ} {Q : Γ → Except X Unit → Prop}
    (J : List β → Γ → Prop) {f : β → Prog S X Unit}
    (hstep : ∀ x xs γ, J (x :: xs) γ → (f x).Follows P (fun γ' e => match e with
      | .ok _ => J xs γ'
      | .error y => Q γ' (.error y)) γ)
    (hend : ∀ γ, J [] γ → Q γ (.ok ())) {xs : List β} {γ : Γ} (h : J xs γ) :
    (forEach xs f).Follows P Q γ := by
  induction xs generalizing γ with
  | nil => exact hend γ h
  | cons x xs ih =>
    refine follows_bind.2 ((hstep x xs γ h).mono fun γ' e he => ?_)
    cases e with
    | ok _ => exact ih he
    | error y => exact he

end Prog

namespace Watch
variable {M : Machine S X} {Γ Δ : Type}

def prod (A : Watch M Γ) (B : Watch M Δ) : Watch M (Γ × Δ) where
  protocol := ⟨fun γ op => A.protocol.pre γ.1 op ∧ B.protocol.pre γ.2 op, fun γ op r =>
    (A.protocol.post γ.1 op r, B.protocol.post γ.2 op r)⟩
  start n := (A.start n, B.start n)
  ends γ e := A.ends γ.1 e ∧ B.ends γ.2 e
  follows n := Prog.follows_prod (A.follows n) (B.follows n)

def after (W : Watch M Γ) (p : Pool M) (g : Nat → Γ) : Label M → Nat → Γ
  | .run i e =>
    match p.tasks[i]? with
    | some ⟨n, .call op _⟩ =>
      let r := M.handle i n op e p.world
      Pool.ghost W.protocol W.start g i op r.1 p.tasks.length r.2.2
    | _ => g
  | .arrive n => Function.update g p.tasks.length (W.start n)
  | .crash _ => fun _ => W.start M.boot

def boot (W : Watch M Γ) : Nat → Γ := fun _ => W.start M.boot

variable {W : Watch M Γ} {p : Pool M} {g : Nat → Γ} {i : Nat} {n : M.Name} {op : S.Op}
  {next : S.Resp op → Prog S X Unit} {e : M.Env}

theorem after_run (h : p.tasks[i]? = some ⟨n, .call op next⟩) : W.after p g (.run i e) =
    Pool.ghost W.protocol W.start g i op (M.handle i n op e p.world).1 p.tasks.length
      (M.handle i n op e p.world).2.2 := by
  rw [after, h]

theorem tracked_step {q : Pool M} {l : Label M} (h : Pool.TrackedTo W.protocol W.ends p g)
    (hs : p.step l = some q) : Pool.TrackedTo W.protocol W.ends q (W.after p g l) := by
  rcases Pool.step_cases hs with ⟨i, e, n, op, next, rfl, hi, rfl⟩ | ⟨n, rfl, -, rfl⟩ | ⟨e, rfl, rfl⟩
  · rw [after_run hi]
    exact Pool.TrackedTo.after h W.follows e hi
  · exact Pool.TrackedTo.arrive h W.follows n
  · exact Pool.TrackedTo.boot _ W.follows

theorem ghost_prod (A : Watch M Γ) (B : Watch M Δ) (g : Nat → Γ × Δ) (i : Nat) (op : S.Op)
    (r : S.Resp op) (len : Nat) (m : Option M.Name) (j : Nat) :
    Pool.ghost (A.prod B).protocol (A.prod B).start g i op r len m j =
      (Pool.ghost A.protocol A.start (fun k => (g k).1) i op r len m j,
        Pool.ghost B.protocol B.start (fun k => (g k).2) i op r len m j) := by
  simp only [Pool.ghost]
  split
  · rfl
  · split
    · cases m <;> rfl
    · rfl

theorem after_prod (A : Watch M Γ) (B : Watch M Δ) (p : Pool M) (g : Nat → Γ × Δ) (l : Label M)
    (j : Nat) : (A.prod B).after p g l j =
      (A.after p (fun k => (g k).1) l j, B.after p (fun k => (g k).2) l j) := by
  cases l with
  | run i e =>
    rcases h : p.tasks[i]? with _ | ⟨n, _ | _ | ⟨op, next⟩⟩
    · simp only [after, h]
    · simp only [after, h]
    · simp only [after, h]
    · rw [after_run h, after_run h, after_run h]
      exact ghost_prod A B g i op _ _ _ j
  | arrive n =>
    simp only [after, Function.update_apply]
    split <;> rfl
  | crash e => rfl

end Watch

namespace Pool
variable {M : Machine S X} {Γ : Type}

/-- The pools an execution reaches, with the ghost states of its tasks, when every step of it
satisfies `C`. -/
inductive ReachWith (W : Watch M Γ) (C : Pool M → (Nat → Γ) → Label M → Prop) (p₀ : Pool M)
    (g₀ : Nat → Γ) : Pool M → (Nat → Γ) → Prop
  | init : ReachWith W C p₀ g₀ p₀ g₀
  | step {p q : Pool M} {g : Nat → Γ} (l : Label M) : ReachWith W C p₀ g₀ p g → C p g l →
      p.step l = some q → ReachWith W C p₀ g₀ q (W.after p g l)

variable {W : Watch M Γ} {C : Pool M → (Nat → Γ) → Label M → Prop} {p₀ p q : Pool M}
  {g₀ g g' : Nat → Γ}

theorem ReachWith.trans (h : ReachWith W C p₀ g₀ p g) (h' : ReachWith W C p g q g') :
    ReachWith W C p₀ g₀ q g' := by
  induction h' with
  | init => exact h
  | step l _ hc hs ih => exact ih.step l hc hs

theorem reachWith_of_reach (W : Watch M Γ) {D : Pool M → Label M → Prop} (g₀ : Nat → Γ)
    (h : Reach D p₀ p) : ∃ g, ReachWith W (fun p _ l => D p l) p₀ g₀ p g := by
  induction h with
  | init => exact ⟨g₀, .init⟩
  | step l _ hc hs ih =>
    obtain ⟨g, hg⟩ := ih
    exact ⟨_, hg.step l hc hs⟩

theorem ReachWith.tracked (h : ReachWith W C p₀ g₀ p g) (h₀ : TrackedTo W.protocol W.ends p₀ g₀) :
    TrackedTo W.protocol W.ends p g := by
  induction h with
  | init => exact h₀
  | step l _ _ hs ih => exact W.tracked_step ih hs

section
variable {Δ : Type} {A : Watch M Γ} {B : Watch M Δ}
  {C : Pool M → (Nat → Γ × Δ) → Label M → Prop} {g₀ g : Nat → Γ × Δ}

theorem ReachWith.fst {D : Pool M → (Nat → Γ) → Label M → Prop}
    (h : ReachWith (A.prod B) C p₀ g₀ p g)
    (hC : ∀ p g l, ReachWith (A.prod B) C p₀ g₀ p g → C p g l → D p (fun k => (g k).1) l) :
    ReachWith A D p₀ (fun k => (g₀ k).1) p fun k => (g k).1 := by
  induction h with
  | init => exact .init
  | @step p q g l h hc hs ih =>
    have hstep := ih.step l (hC p g l h hc) hs
    simpa only [Watch.after_prod] using hstep

theorem ReachWith.snd {D : Pool M → (Nat → Δ) → Label M → Prop}
    (h : ReachWith (A.prod B) C p₀ g₀ p g)
    (hC : ∀ p g l, ReachWith (A.prod B) C p₀ g₀ p g → C p g l → D p (fun k => (g k).2) l) :
    ReachWith B D p₀ (fun k => (g₀ k).2) p fun k => (g k).2 := by
  induction h with
  | init => exact .init
  | @step p q g l h hc hs ih =>
    have hstep := ih.step l (hC p g l h hc) hs
    simpa only [Watch.after_prod] using hstep

end

theorem ReachWith.invariant (h : ReachWith W C p₀ g₀ p g) (h₀ : TrackedTo W.protocol W.ends p₀ g₀)
    {J : Pool M → (Nat → Γ) → Prop} (hJ₀ : J p₀ g₀)
    (hrun : ∀ p g i e n op next, TrackedTo W.protocol W.ends p g → J p g →
      p.tasks[i]? = some ⟨n, .call op next⟩ → W.protocol.pre (g i) op → C p g (.run i e) →
      J (p.after i n op next e) (ghost W.protocol W.start g i op (M.handle i n op e p.world).1
        p.tasks.length (M.handle i n op e p.world).2.2))
    (harrive : ∀ p g n, J p g → M.external n = true → C p g (.arrive n) →
      J ⟨p.world, p.tasks ++ [Task.spawn n]⟩ (Function.update g p.tasks.length (W.start n)))
    (hcrash : ∀ p g e, J p g → C p g (.crash e) → J (boot (M.reboot e p.world)) W.boot) :
    J p g := by
  induction h with
  | init => exact hJ₀
  | @step p q g l hr hc hs ih =>
    rcases step_cases hs with ⟨i, e, n, op, next, rfl, hi, rfl⟩ | ⟨n, rfl, hn, rfl⟩ | ⟨e, rfl, rfl⟩
    · have ht := hr.tracked h₀
      rw [W.after_run hi]
      exact hrun p g i e n op next ht ih hi (ht i _ hi).1 hc
    · exact harrive p g n ih hn hc
    · exact hcrash p g e ih hc

def ObeysWith (W : Watch M Γ) (C : Pool M → (Nat → Γ) → Label M → Prop) (p : Pool M)
    (g : Nat → Γ) : List (Label M) → Prop
  | [] => True
  | l :: ls => C p g l ∧ ∀ q ∈ p.step l, q.ObeysWith W C (W.after p g l) ls

instance ObeysWith.decidable (W : Watch M Γ) (C : Pool M → (Nat → Γ) → Label M → Prop)
    [∀ p g l, Decidable (C p g l)] (p : Pool M) (g : Nat → Γ) (ls : List (Label M)) :
    Decidable (p.ObeysWith W C g ls) :=
  match ls with
  | [] => isTrue trivial
  | l :: ls =>
    have : ∀ (q : Pool M) (g : Nat → Γ), Decidable (q.ObeysWith W C g ls) :=
      fun q g => ObeysWith.decidable W C q g ls
    inferInstanceAs (Decidable (C p g l ∧ ∀ q ∈ p.step l, q.ObeysWith W C (W.after p g l) ls))

theorem reachWith_of_obeys {ls ls' : List (Label M)} (h : p₀.exec ls = some p)
    (hC : p₀.ObeysWith W C g₀ (ls ++ ls')) :
    ∃ g, ReachWith W C p₀ g₀ p g ∧ p.ObeysWith W C g ls' := by
  induction ls generalizing p₀ g₀ with
  | nil =>
    cases h
    exact ⟨g₀, .init, hC⟩
  | cons l ls ih =>
    obtain ⟨q, hq, hr⟩ := Option.bind_eq_some_iff.1 h
    obtain ⟨g, hg, hrest⟩ := ih hr (hC.2 q hq)
    exact ⟨g, (ReachWith.init.step l hC.1 hq).trans hg, hrest⟩

theorem ObeysWith.reachWith {ls : List (Label M)} (hC : p₀.ObeysWith W C g₀ ls)
    (h : p₀.exec ls = some p) : ∃ g, ReachWith W C p₀ g₀ p g := by
  rw [← List.append_nil ls] at hC
  obtain ⟨g, hg, -⟩ := reachWith_of_obeys h hC
  exact ⟨g, hg⟩

end Pool
end Coroutine
