import GrillPlatform.Coroutine.Pool

/-! One task alone. A program run to its end, call by call, and what that is in a pool whose other
tasks wait meanwhile. -/

namespace Coroutine
variable {S : Sig} {X : Type}

namespace Prog
variable {E W α : Type}

/-- A program run with no other task: the outcome, the world after it, and the choices of the
environment it has not used. -/
def exec (h : (op : S.Op) → E → W → S.Resp op × W) :
    Prog S X α → (Nat → E) → W → Except X α × W × (Nat → E)
  | .pure a, ω, w => (.ok a, w, ω)
  | .raise x, ω, w => (.error x, w, ω)
  | .call op next, ω, w =>
    let r := h op (ω 0) w
    (next r.1).exec h (fun k => ω (k + 1)) r.2

section
variable {h : (op : S.Op) → E → W → S.Resp op × W} {β : Type}

theorem exec_bind (p : Prog S X α) (f : α → Prog S X β) (ω : Nat → E) (w : W) :
    (p.bind f).exec h ω w = match p.exec h ω w with
      | (.ok a, w', ω') => (f a).exec h ω' w'
      | (.error x, w', ω') => (.error x, w', ω') := by
  induction p generalizing ω w with
  | pure | raise => rfl
  | call op next ih => exact ih _ _ _

theorem exec_bind_ok {p : Prog S X α} {f : α → Prog S X β} {ω ω' : Nat → E} {w w' : W} {b : β} :
    (p.bind f).exec h ω w = (.ok b, w', ω') ↔
      ∃ a w₁ ω₁, p.exec h ω w = (.ok a, w₁, ω₁) ∧ (f a).exec h ω₁ w₁ = (.ok b, w', ω') := by
  rw [exec_bind]
  match hp : p.exec h ω w with
  | (.ok a, w₁, ω₁) =>
    refine ⟨fun he => ⟨a, w₁, ω₁, rfl, he⟩, ?_⟩
    rintro ⟨_, _, _, hr, he⟩
    cases hr
    exact he
  | (.error x, w₁, ω₁) =>
    refine ⟨fun he => ?_, ?_⟩
    · cases he
    · rintro ⟨_, _, _, hr, -⟩
      cases hr

theorem exec_bind_cases {p : Prog S X α} {f : α → Prog S X β} {ω ω' : Nat → E} {w w' : W}
    {out : Except X β} (hb : (p.bind f).exec h ω w = (out, w', ω')) :
    (∃ x, p.exec h ω w = (.error x, w', ω') ∧ out = .error x) ∨
      ∃ a w₁ ω₁, p.exec h ω w = (.ok a, w₁, ω₁) ∧ (f a).exec h ω₁ w₁ = (out, w', ω') := by
  rw [exec_bind] at hb
  match hp : p.exec h ω w with
  | (.ok a, w₁, ω₁) =>
    rw [hp] at hb
    exact .inr ⟨a, w₁, ω₁, rfl, hb⟩
  | (.error y, w₁, ω₁) =>
    rw [hp] at hb
    cases hb
    exact .inl ⟨y, rfl, rfl⟩

theorem exec_bind_error {p : Prog S X α} {f : α → Prog S X β} {ω ω' : Nat → E} {w w' : W} {x : X}
    (hb : (p.bind f).exec h ω w = (.error x, w', ω')) : p.exec h ω w = (.error x, w', ω') ∨
      ∃ a w₁ ω₁, p.exec h ω w = (.ok a, w₁, ω₁) ∧ (f a).exec h ω₁ w₁ = (.error x, w', ω') := by
  rcases exec_bind_cases hb with ⟨y, hp, hx⟩ | ⟨a, w₁, ω₁, hp, hf⟩
  · cases hx
    exact .inl hp
  · exact .inr ⟨a, w₁, ω₁, hp, hf⟩

theorem exec_bind_of_ok {p : Prog S X α} {f : α → Prog S X β} {ω ω₁ : Nat → E} {w w₁ : W} {a : α}
    (hp : p.exec h ω w = (.ok a, w₁, ω₁)) : (p.bind f).exec h ω w = (f a).exec h ω₁ w₁ := by
  rw [exec_bind, hp]

theorem exec_bind_of_error {p : Prog S X α} {f : α → Prog S X β} {ω ω₁ : Nat → E} {w w₁ : W} {x : X}
    (hp : p.exec h ω w = (.error x, w₁, ω₁)) :
    (p.bind f).exec h ω w = (.error x, w₁, ω₁) := by
  rw [exec_bind, hp]

theorem exec_ofExcept (e : Except X α) (ω : Nat → E) (w : W) :
    (ofExcept e : Prog S X α).exec h ω w = (e, w, ω) := by
  cases e <;> rfl

theorem exec_tryCatch (p : Prog S X α) (f : X → Prog S X α) (ω : Nat → E) (w : W) :
    (p.tryCatch f).exec h ω w = match p.exec h ω w with
      | (.ok a, w', ω') => (.ok a, w', ω')
      | (.error x, w', ω') => (f x).exec h ω' w' := by
  induction p generalizing ω w with
  | pure | raise => rfl
  | call op next ih => exact ih _ _ _

theorem exec_tryCatch_cases {p : Prog S X α} {f : X → Prog S X α} {ω ω' : Nat → E} {w w' : W}
    {out : Except X α} (hc : (p.tryCatch f).exec h ω w = (out, w', ω')) :
    (∃ a, p.exec h ω w = (.ok a, w', ω') ∧ out = .ok a) ∨
      ∃ x w₁ ω₁, p.exec h ω w = (.error x, w₁, ω₁) ∧ (f x).exec h ω₁ w₁ = (out, w', ω') := by
  rw [exec_tryCatch] at hc
  match hp : p.exec h ω w with
  | (.ok a, w₁, ω₁) =>
    rw [hp] at hc
    cases hc
    exact .inl ⟨a, rfl, rfl⟩
  | (.error x, w₁, ω₁) =>
    rw [hp] at hc
    exact .inr ⟨x, w₁, ω₁, rfl, hc⟩

theorem exec_attempt (p : Prog S X α) (ω : Nat → E) (w : W) :
    p.attempt.exec h ω w = (.ok (p.exec h ω w).1, (p.exec h ω w).2) := by
  rw [attempt, exec_tryCatch, exec_bind]
  rcases p.exec h ω w with ⟨_ | a, w', ω'⟩ <;> rfl

theorem exec_rest {P : E → Prop} {p : Prog S X α} {ω ω' : Nat → E} {w w' : W} {r : Except X α}
    (hω : ∀ k, P (ω k)) (he : p.exec h ω w = (r, w', ω')) : ∀ k, P (ω' k) := by
  induction p generalizing ω w with
  | pure | raise =>
    cases he
    exact hω
  | call op next ih => exact ih _ (fun k => hω (k + 1)) he

/-- From related worlds the programs end alike, in related worlds. -/
def Alike (h h' : (op : S.Op) → E → W → S.Resp op × W) (R : W → W → Prop)
    (p q : Prog S X α) : Prop :=
  ∀ ω w v, R w v → (p.exec h ω w).1 = (q.exec h' ω v).1 ∧
    R (p.exec h ω w).2.1 (q.exec h' ω v).2.1 ∧ (p.exec h ω w).2.2 = (q.exec h' ω v).2.2

section
variable {h' : (op : S.Op) → E → W → S.Resp op × W} {R : W → W → Prop} {A : S.Op → Prop}

theorem alike_of_calls (hR : ∀ op e w v, A op → R w v →
    (h op e w).1 = (h' op e v).1 ∧ R (h op e w).2 (h' op e v).2) {p : Prog S X α} (hp : p.Calls A) :
    p.Alike h h' R p := by
  induction p with
  | pure | raise => exact fun _ _ _ hw => ⟨rfl, hw, rfl⟩
  | call op next ih =>
    intro ω w v hw
    obtain ⟨ha, hr⟩ := hR op (ω 0) w v hp.1 hw
    dsimp only [exec]
    rw [ha]
    exact ih _ (hp.2 _) _ _ _ hr

theorem alike_bind {p q : Prog S X α} {f g : α → Prog S X β} (hp : p.Alike h h' R q)
    (hf : ∀ a, (f a).Alike h h' R (g a)) : (p.bind f).Alike h h' R (q.bind g) := by
  intro ω w v hw
  obtain ⟨ha, hr, hω⟩ := hp ω w v hw
  rw [exec_bind, exec_bind]
  rcases hpe : p.exec h ω w with ⟨out, w', ω'⟩
  rcases hqe : q.exec h' ω v with ⟨out', v', ω''⟩
  rw [hpe, hqe] at ha hr hω
  dsimp only at ha hr hω
  subst ha hω
  cases out with
  | error x => exact ⟨rfl, hr, rfl⟩
  | ok a => exact hf a _ _ _ hr

end

def Returns (h : (op : S.Op) → E → W → S.Resp op × W) (p : Prog S X α) (ω : Nat → E) (w : W) :
    Prop :=
  ∃ a w' ω', p.exec h ω w = (.ok a, w', ω')

theorem returns_of_ok {p : Prog S X α} {ω : Nat → E} {w : W} {a : α}
    (ha : (p.exec h ω w).1 = .ok a) : p.Returns h ω w :=
  ⟨a, (p.exec h ω w).2.1, (p.exec h ω w).2.2, Prod.ext ha rfl⟩

theorem returns_bind {p : Prog S X α} {f : α → Prog S X β} {ω : Nat → E} {w : W}
    (hp : p.Returns h ω w)
    (hf : ∀ a w' ω', p.exec h ω w = (.ok a, w', ω') → (f a).Returns h ω' w') :
    (p.bind f).Returns h ω w := by
  obtain ⟨a, w', ω', ha⟩ := hp
  obtain ⟨b, w'', ω'', hb⟩ := hf a w' ω' ha
  exact ⟨b, w'', ω'', (exec_bind_of_ok ha).trans hb⟩

theorem returns_forEach {γ : Type} {xs : List γ} {f : γ → Prog S X Unit} {P : E → Prop}
    (hf : ∀ x ω w, (∀ k, P (ω k)) → (f x).Returns h ω w) {ω : Nat → E} {w : W}
    (hω : ∀ k, P (ω k)) : (forEach xs f).Returns h ω w := by
  induction xs generalizing ω w with
  | nil => exact ⟨(), w, ω, rfl⟩
  | cons x xs ih => exact returns_bind (hf x ω w hω) fun _ _ _ he => ih (exec_rest hω he)

/-- The environment keeps to `D` at every call of the program. -/
def Along (h : (op : S.Op) → E → W → S.Resp op × W) (D : S.Op → E → W → Prop) :
    Prog S X α → (Nat → E) → W → Prop
  | .pure _, _, _ | .raise _, _, _ => True
  | .call op next, ω, w =>
    D op (ω 0) w ∧
      (next (h op (ω 0) w).1).Along h D (fun k => ω (k + 1)) (h op (ω 0) w).2

instance Along.decidable (h : (op : S.Op) → E → W → S.Resp op × W) (D : S.Op → E → W → Prop)
    [∀ op e w, Decidable (D op e w)] :
    (p : Prog S X α) → (ω : Nat → E) → (w : W) → Decidable (p.Along h D ω w)
  | .pure _, _, _ | .raise _, _, _ => isTrue trivial
  | .call op next, ω, w =>
    have : Decidable ((next (h op (ω 0) w).1).Along h D (fun k => ω (k + 1)) (h op (ω 0) w).2) :=
      Along.decidable h D (next (h op (ω 0) w).1) (fun k => ω (k + 1)) (h op (ω 0) w).2
    inferInstanceAs (Decidable (D op (ω 0) w ∧ _))

theorem along_bind {D : S.Op → E → W → Prop} {p : Prog S X α} {f : α → Prog S X β} {ω : Nat → E}
    {w : W} (hb : (p.bind f).Along h D ω w) : p.Along h D ω w ∧
      ∀ a w' ω', p.exec h ω w = (.ok a, w', ω') → (f a).Along h D ω' w' := by
  induction p generalizing ω w with
  | pure a =>
    refine ⟨trivial, fun _ _ _ he => ?_⟩
    cases he
    exact hb
  | raise x =>
    refine ⟨trivial, fun _ _ _ he => ?_⟩
    cases he
  | call op next ih =>
    obtain ⟨hp, hf⟩ := ih _ hb.2
    exact ⟨⟨hb.1, hp⟩, hf⟩

end

end Prog

namespace Pool
variable {M : Machine S X}

/-- A call of task `i`, with the tasks created so far kept beside the world. -/
def solo (M : Machine S X) (i : Nat) (n : M.Name) (op : S.Op) (e : M.Env)
    (s : M.World × List M.Name) : S.Resp op × M.World × List M.Name :=
  let r := M.handle i n op e s.1
  (r.1, r.2.1, s.2 ++ r.2.2.toList)

/-- A task arrives and runs to its end while the others wait. -/
def serve (p : Pool M) (n : M.Name) (ω : Nat → M.Env) : Pool M :=
  let r := (M.body n).exec (solo M p.tasks.length n) ω (p.world, [])
  ⟨r.2.1.1, p.tasks ++ ⟨n, Prog.ofExcept r.1⟩ :: r.2.1.2.map Task.spawn⟩

theorem exec_solo {C : Pool M → Label M → Prop} (ts : List (Task M)) (n : M.Name)
    (prog : Prog S X Unit) (ω : Nat → M.Env) (w : M.World) (cs : List M.Name)
    (hC : ∀ p i e, C p (.run i e)) :
    let p : Pool M := ⟨w, ts ++ ⟨n, prog⟩ :: cs.map Task.spawn⟩
    let r := prog.exec (solo M ts.length n) ω (w, cs)
    ∃ ls, p.exec ls = some ⟨r.2.1.1, ts ++ ⟨n, Prog.ofExcept r.1⟩ :: r.2.1.2.map Task.spawn⟩ ∧
      p.Obeys C ls := by
  induction prog generalizing ω w cs with
  | pure | raise => exact ⟨[], rfl, trivial⟩
  | call op next ih =>
    let r := M.handle ts.length n op (ω 0) w
    obtain ⟨ls, hls, hobeys⟩ := ih r.1 (fun k => ω (k + 1)) r.2.1 (cs ++ r.2.2.toList)
    have hstep : (Pool.mk w (ts ++ ⟨n, .call op next⟩ :: cs.map Task.spawn) : Pool M).step
        (.run ts.length (ω 0)) = some ⟨r.2.1, ts ++ ⟨n, next r.1⟩ ::
          (cs ++ r.2.2.toList).map Task.spawn⟩ := by
      simp only [step, List.getElem?_append_right (Nat.le_refl ts.length), Nat.sub_self,
        List.getElem?_cons_zero, after]
      congr 2
      rw [List.set_append_right _ _ (Nat.le_refl _), Nat.sub_self, List.set_cons_zero,
        List.append_assoc, List.cons_append, List.map_append]
      cases hr : r.2.2 <;> rfl
    refine ⟨.run ts.length (ω 0) :: ls, Option.bind_eq_some_iff.2 ⟨_, hstep, hls⟩, hC _ _ _, ?_⟩
    intro q hq
    cases hstep.symm.trans hq
    exact hobeys

theorem exec_serve {C : Pool M → Label M → Prop} (p : Pool M) {n : M.Name}
    (hn : M.external n = true) (ω : Nat → M.Env) (hrun : ∀ p i e, C p (.run i e))
    (harrive : C p (.arrive n)) : ∃ ls, p.exec ls = some (p.serve n ω) ∧ p.Obeys C ls := by
  obtain ⟨ls, hls, hobeys⟩ := exec_solo p.tasks n (M.body n) ω p.world [] hrun
  have hstep : p.step (.arrive n) = some ⟨p.world, p.tasks ++ [Task.spawn n]⟩ := if_pos hn
  refine ⟨.arrive n :: ls, Option.bind_eq_some_iff.2 ⟨_, hstep, hls⟩, harrive, fun q hq => ?_⟩
  cases hstep.symm.trans hq
  exact hobeys

theorem reach_serve (p : Pool M) {n : M.Name} (hn : M.external n = true) (ω : Nat → M.Env) :
    Reach (fun _ _ => True) p (p.serve n ω) := by
  obtain ⟨ls, hls, -⟩ := exec_serve (C := fun _ _ => True) p hn ω (fun _ _ _ => trivial) trivial
  exact reach_of_exec ls hls

/-- The environment's choices for the steps of task `i` in a schedule. -/
def choices (i : Nat) (ls : List (Label M)) : List M.Env := ls.filterMap fun
  | .run j e => if j = i then some e else none
  | _ => none

/-- A task among others ends as it would alone, from a state that the relation `R` ties to the pool.
The steps of the others keep `R`; a call of the task keeps it with the choices the relation `F`
gives. -/
theorem exec_amid {R : Pool M → M.World × List M.Name → Prop} {F : M.Env → M.Env → Prop}
    {D : Pool M → Label M → Prop} {A : S.Op → Prop} {i : Nat} {n : M.Name} (e₀ : M.Env)
    (hF : F e₀ e₀) (hcrash : ∀ p e, ¬ D p (.crash e))
    (hcall : ∀ p s e op next, p.tasks[i]? = some ⟨n, .call op next⟩ → A op → R p s →
      ∃ e', F e e' ∧ (M.handle i n op e p.world).1 = (solo M i n op e' s).1 ∧
        R (p.after i n op next e) (solo M i n op e' s).2)
    (hother : ∀ p q l s, D p l → (∀ e, l ≠ .run i e) → p.step l = some q → R p s → R q s)
    {p q : Pool M} {ls : List (Label M)} (h : p.exec ls = some q) (hD : p.Obeys D ls)
    {prog : Prog S X Unit} (hi : p.tasks[i]? = some ⟨n, prog⟩) (hA : prog.Calls A)
    {s : M.World × List M.Name} (hR : R p s) (he : q.Ended i) :
    ∃ ω : Nat → M.Env, (∀ k, F ((choices i ls).getD k e₀) (ω k)) ∧
      R q (prog.exec (solo M i n) ω s).2.1 := by
  induction ls generalizing p prog s with
  | nil =>
    cases h
    obtain ⟨t, ht, hend⟩ := he
    rw [hi] at ht
    cases ht
    refine ⟨fun _ => e₀, fun _ => hF, ?_⟩
    cases prog with
    | pure | raise => exact hR
    | call => exact hend.elim
  | cons l ls ih =>
    obtain ⟨p₁, hs, hr⟩ := Option.bind_eq_some_iff.1 h
    by_cases hl : ∃ e, l = .run i e
    · -- the task's own call
      obtain ⟨e, rfl⟩ := hl
      rcases step_cases hs with ⟨j, e', n', op, next, hj, ht, rfl⟩ | ⟨n', hn, -⟩ | ⟨e', hn, -⟩
      · cases hj
        rw [hi] at ht
        cases ht
        obtain ⟨e', hFe, ha, hR'⟩ := hcall p s e op next hi hA.1 hR
        obtain ⟨ω, hω, hq⟩ := ih hr (hD.2 _ hs) (getElem?_after_self hi) (hA.2 _) hR'
        have hc : choices i (.run i e :: ls) = e :: choices i ls := by simp [choices]
        refine ⟨fun k => Nat.casesOn k e' ω, fun k => ?_, ?_⟩
        · rw [hc]
          cases k with
          | zero => exact hFe
          | succ k => exact hω k
        · rw [ha] at hq
          exact hq
      · cases hn
      · cases hn
    · have hne : ∀ e, l ≠ .run i e := fun e he => hl ⟨e, he⟩
      have hnc : ∀ e, l ≠ .crash e := fun e he => hcrash p e (he ▸ hD.1)
      obtain ⟨ω, hω, hq⟩ := ih hr (hD.2 _ hs) (getElem?_step hs hi hne hnc) hA
        (hother p p₁ l s hD.1 hne hs hR)
      refine ⟨ω, fun k => ?_, hq⟩
      have hc : choices i (l :: ls) = choices i ls := by
        cases l with
        | run j e =>
          have hj : j ≠ i := by
            rintro rfl
            exact hne e rfl
          simp [choices, hj]
        | arrive => rfl
        | crash => rfl
      rw [hc]
      exact hω k

end Pool
end Coroutine
