import GrillPlatform.Coroutine.Pool

/-! Histories. The ghost of a task is its name and the answers it has had. A call rests on earlier
answers, and what an answer has established is kept by every step. -/

namespace Coroutine
variable {S : Sig} {X : Type}

abbrev Sig.Answered (S : Sig) := (op : S.Op) × S.Resp op

namespace Prog
variable {N α β : Type}

/-- A task may make the calls that its name and its answers so far bear out. -/
def resting (rule : N → List S.Answered → S.Op → Prop) : Protocol S (N × List S.Answered) where
  pre γ op := rule γ.1 γ.2 op
  post γ op r := (γ.1, ⟨op, r⟩ :: γ.2)

variable {rule : N → List S.Answered → S.Op → Prop} {n : N}

theorem maintains_resting {p : Prog S X α} (hp : p.Calls fun op => ∀ h, rule n h op) :
    p.Maintains (resting rule) fun γ => γ.1 = n :=
  hp.maintains fun γ op hγ hop => ⟨by rw [← hγ] at hop; exact hop γ.2, fun _ => hγ⟩

end Prog

def Prog.isPure {α : Type} : Prog S X α → Bool
  | .pure _ => true
  | _ => false

namespace Pool
variable {M : Machine S X}

/-- Every task has a history of answers that still stand, goes on as the rule says, and ends as `Q`
says. -/
def Rested (rule : M.Name → List S.Answered → S.Op → Prop) (Fact : M.World → S.Answered → Prop)
    (Q : M.Name × List S.Answered → Except X Unit → Prop) (p : Pool M) : Prop :=
  ∀ (i : Nat) (t : Task M), p.tasks[i]? = some t → ∃ h : List S.Answered,
    (∀ x ∈ h, Fact p.world x) ∧ t.prog.Follows (Prog.resting rule) Q (t.name, h)

section
variable {rule : M.Name → List S.Answered → S.Op → Prop} {Fact : M.World → S.Answered → Prop}
  {Q : M.Name × List S.Answered → Except X Unit → Prop}

theorem rested_spawn {n : M.Name} {w : M.World}
    (hbody : ∀ n, (M.body n).Follows (Prog.resting rule) Q (n, [])) :
    ∃ h : List S.Answered, (∀ x ∈ h, Fact w x) ∧
      (Task.spawn n : Task M).prog.Follows (Prog.resting rule) Q (n, h) :=
  ⟨[], fun _ h => (List.not_mem_nil h).elim, hbody n⟩

theorem rested_boot (w : M.World)
    (hbody : ∀ n, (M.body n).Follows (Prog.resting rule) Q (n, [])) :
    Rested rule Fact Q (boot w) := by
  intro j t ht
  obtain ⟨-, rfl⟩ := getElem?_boot ht
  exact rested_spawn hbody

theorem Rested.after {p : Pool M} {i : Nat} {n : M.Name} {op : S.Op}
    {next : S.Resp op → Prog S X Unit} {e : M.Env} (hR : Rested rule Fact Q p)
    (hbody : ∀ n, (M.body n).Follows (Prog.resting rule) Q (n, []))
    (hi : p.tasks[i]? = some ⟨n, .call op next⟩)
    (hnew : Fact (p.after i n op next e).world ⟨op, (M.handle i n op e p.world).1⟩)
    (hkept : ∀ x, Fact p.world x → Fact (p.after i n op next e).world x) :
    Rested rule Fact Q (p.after i n op next e) := by
  intro j t ht
  rcases getElem?_after ht with ⟨rfl, rfl⟩ | ⟨-, ht⟩ | ⟨-, m, -, rfl⟩
  · obtain ⟨h, hfacts, hf⟩ := hR j _ hi
    refine ⟨⟨op, (M.handle j n op e p.world).1⟩ :: h, fun x hx => ?_, hf.2 _⟩
    rcases List.mem_cons.1 hx with rfl | hx
    · exact hnew
    · exact hkept x (hfacts x hx)
  · obtain ⟨h, hfacts, hf⟩ := hR j t ht
    exact ⟨h, fun x hx => hkept x (hfacts x hx), hf⟩
  · exact rested_spawn hbody

variable (rule Fact) in
/-- An invariant of the world beside the facts the answers have established. One call is looked at,
with the facts its task knows; what an answer has established must survive every call. -/
theorem Reach.rested {C : Pool M → Label M → Prop} {w₀ : M.World} {p : Pool M}
    (h : Reach C (boot w₀) p) (I : M.World → Prop)
    (hbody : ∀ n, (M.body n).Follows (Prog.resting rule) Q (n, [])) (h₀ : I w₀)
    (hrun : ∀ p i e n op next h, Reach C (boot w₀) p → I p.world → (∀ x ∈ h, Fact p.world x) →
      rule n h op → p.tasks[i]? = some ⟨n, .call op next⟩ → C p (.run i e) →
      I (p.after i n op next e).world ∧
      Fact (p.after i n op next e).world ⟨op, (M.handle i n op e p.world).1⟩ ∧
      ∀ x, Fact p.world x → Fact (p.after i n op next e).world x)
    (hcrash : ∀ p e, Reach C (boot w₀) p → I p.world → C p (.crash e) →
      I (M.reboot e p.world)) :
    I p.world ∧ Rested rule Fact Q p := by
  induction h with
  | init => exact ⟨h₀, rested_boot w₀ hbody⟩
  | @step p q l hp hc hs ih =>
    obtain ⟨hI, hR⟩ := ih
    rcases step_cases hs with ⟨i, e, n, op, next, rfl, hi, rfl⟩ | ⟨n, rfl, -, rfl⟩ | ⟨e, rfl, rfl⟩
    · obtain ⟨h, hfacts, hf⟩ := hR i _ hi
      obtain ⟨hI', hnew, hkept⟩ := hrun p i e n op next h hp hI hfacts hf.1 hi hc
      exact ⟨hI', hR.after hbody hi hnew hkept⟩
    · refine ⟨hI, fun j t ht => ?_⟩
      rcases getElem?_arrive ht with ht | ⟨-, rfl⟩
      · exact hR j t ht
      · exact rested_spawn hbody
    · exact ⟨hcrash p e hp hI hc, rested_boot _ hbody⟩

end

def HasReturned (p : Pool M) (i : Nat) (n : M.Name) : Prop :=
  ∃ t ∈ p.tasks[i]?, t.name = n ∧ t.prog.isPure = true

instance HasReturned.decidable [DecidableEq M.Name] (p : Pool M) (i : Nat) (n : M.Name) :
    Decidable (p.HasReturned i n) :=
  inferInstanceAs (Decidable (∃ t ∈ p.tasks[i]?, t.name = n ∧ t.prog.isPure = true))

/-- What a task that has returned relied on. -/
theorem Rested.returned {rule : M.Name → List S.Answered → S.Op → Prop}
    {Fact : M.World → S.Answered → Prop} {Q : M.Name × List S.Answered → Except X Unit → Prop}
    {p : Pool M} (hR : Rested rule Fact Q p) {i : Nat} {n : M.Name} (hi : p.HasReturned i n) :
    ∃ h : List S.Answered, (∀ x ∈ h, Fact p.world x) ∧ Q (n, h) (.ok ()) := by
  obtain ⟨⟨_, prog⟩, ht, rfl, hprog⟩ := hi
  cases prog with
  | pure => exact hR i _ ht
  | raise | call => cases hprog

theorem Reach.names {C : Pool M → Label M → Prop} {w₀ : M.World} {p : Pool M}
    (h : Reach C (boot w₀) p) {P : M.Name → Prop} (hboot : P M.boot)
    (harrive : ∀ p n, C p (.arrive n) → M.external n = true → P n)
    (hcreate : ∀ p i n op next e m, Reach C (boot w₀) p → p.tasks[i]? = some ⟨n, .call op next⟩ →
      (M.handle i n op e p.world).2.2 = some m → P m)
    {i : Nat} {t : Task M} (ht : p.tasks[i]? = some t) : P t.name := by
  induction h generalizing i t with
  | init =>
    obtain ⟨-, rfl⟩ := getElem?_boot ht
    exact hboot
  | step l hp hc hs ih =>
    rcases step_cases hs with ⟨j, e, n, op, next, rfl, hj, rfl⟩ | ⟨n, rfl, hn, rfl⟩ | ⟨e, rfl, rfl⟩
    · rcases getElem?_after ht with ⟨rfl, rfl⟩ | ⟨-, ht⟩ | ⟨-, m, hm, rfl⟩
      · have hname := ih hj
        exact hname
      · exact ih ht
      · exact hcreate _ j n op next e m hp hj hm
    · rcases getElem?_arrive ht with ht | ⟨-, rfl⟩
      · exact ih ht
      · exact harrive _ n hc hn
    · obtain ⟨-, rfl⟩ := getElem?_boot ht
      exact hboot

end Pool
end Coroutine
