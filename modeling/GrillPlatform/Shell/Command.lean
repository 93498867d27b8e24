import Mathlib.Logic.Basic
import Mathlib.Tactic.Common

/-! Shell scripts under `set -e`. A simple command that fails ends the shell, unless something looks
at its status, after running the handler that `trap … ERR` has set; functions do not inherit it. -/

namespace Shell
variable {σ : Type}

/-- A command as the handler is told of it. -/
structure Place where
  line : Nat
  text : String

inductive Cmd (σ : Type) where
  | simple (place : Place) (f : σ → Nat × σ)
  | seq (c d : Cmd σ)
  /-- `c && d` -/
  | and (c d : Cmd σ)
  /-- `c || d` -/
  | or (c d : Cmd σ)
  /-- `if c; then t; else e; fi` -/
  | cond (c t e : Cmd σ)
  /-- `until c; do d; done` -/
  | untilDo (c d : Cmd σ)
  /-- A call of a function with this body. -/
  | call (place : Place) (body : Cmd σ)
  | ret (status : Nat)
  | exit (status : Nat)
  /-- The commands after `trap handler ERR`. -/
  | onErr (handler : Place → Nat → Cmd σ) (body : Cmd σ)

inductive Outcome where
  | status (n : Nat)
  | returned (n : Nat)
  | exited (n : Nat)
  deriving DecidableEq, Repr

/-- What commands do: nothing known when the loops have run out of fuel. -/
abbrev Sem (σ : Type) := σ → Option (Outcome × σ)

/-- Whether a failure is looked at by nobody else, and the handler for it. -/
structure Context (σ : Type) where
  checked : Bool := true
  trap : Option (Place → Nat → Sem σ) := none

def Context.unchecked (γ : Context σ) : Context σ := { γ with checked := false }

def Context.inFunction (γ : Context σ) : Context σ := { γ with trap := none }

def Sem.andThen (f : Sem σ) (g : Nat → Sem σ) : Sem σ := fun s =>
  match f s with
  | some (.status n, s') => g n s'
  | r => r

def Sem.status (n : Nat) : Sem σ := fun s => some (.status n, s)

/-- A simple command has ended with a status. -/
def settle (γ : Context σ) (place : Place) (n : Nat) : Sem σ := fun s =>
  if n = 0 ∨ γ.checked = false then some (.status n, s)
  else match γ.trap with
    | none => some (.exited n, s)
    | some handler =>
      match handler place n s with
      | some (.exited m, s') => some (.exited m, s')
      | some (_, s') => some (.exited n, s')
      | none => none

def repeatUntil (c d : Sem σ) : Nat → Sem σ
  | 0 => fun _ => none
  | fuel + 1 => c.andThen fun n =>
      if n = 0 then .status 0 else d.andThen fun _ => repeatUntil c d fuel

def eval (fuel : Nat) : Cmd σ → Context σ → Sem σ
  | .simple place f, γ => fun s => settle γ place (f s).1 (f s).2
  | .seq c d, γ => (eval fuel c γ).andThen fun _ => eval fuel d γ
  | .and c d, γ => (eval fuel c γ.unchecked).andThen fun n =>
      if n = 0 then eval fuel d γ else .status n
  | .or c d, γ => (eval fuel c γ.unchecked).andThen fun n =>
      if n = 0 then .status 0 else eval fuel d γ
  | .cond c t e, γ => (eval fuel c γ.unchecked).andThen fun n =>
      if n = 0 then eval fuel t γ else eval fuel e γ
  | .untilDo c d, γ => repeatUntil (eval fuel c γ.unchecked) (eval fuel d γ) fuel
  | .call place body, γ => fun s =>
      match eval fuel body γ.inFunction s with
      | some (.status n, s') | some (.returned n, s') => settle γ place n s'
      | r => r
  | .ret n, _ => fun s => some (.returned n, s)
  | .exit n, _ => fun s => some (.exited n, s)
  | .onErr handler body, γ =>
      eval fuel body { γ with trap := some fun place n => eval fuel (handler place n) {} }

/-- The status of a script. -/
def exitStatus : Outcome → Nat
  | .status n | .returned n | .exited n => n

/-- The steps of a job, each a shell of its own, up to the first that fails. -/
def runSteps (fuel : Nat) : List (Cmd σ) → σ → Option (Nat × σ)
  | [], s => some (0, s)
  | c :: cs, s =>
    match eval fuel c {} s with
    | none => none
    | some (o, s') => if exitStatus o = 0 then runSteps fuel cs s' else some (exitStatus o, s')

/-- `:` -/
def skip : Cmd σ := .simple ⟨0, ":"⟩ fun s => (0, s)

/-- `[[ … ]]` -/
def test (b : σ → Bool) : Cmd σ := .simple ⟨0, "[["⟩ fun s => (if b s then 0 else 1, s)

/-- `name=value` -/
def assign (f : σ → σ) : Cmd σ := .simple ⟨0, "="⟩ fun s => (0, f s)

/-- Commands one after another. -/
def block : List (Cmd σ) → Cmd σ
  | [] => skip
  | [c] => c
  | c :: cs => .seq c (block cs)

/-- The commands end with an outcome and a state as `Φ` says, or run out of fuel, and then `t` holds:
`False` says that they end, `True` says nothing about whether they do. -/
def Sem.Yields (t : Prop) (f : Sem σ) (Φ : Outcome → σ → Prop) (s : σ) : Prop :=
  match f s with
  | some (o, s') => Φ o s'
  | none => t

/-- The continuation of a command, for its status and for any other outcome. -/
def after (Φ : Outcome → σ → Prop) (Ψ : Nat → σ → Prop) : Outcome → σ → Prop
  | .status n, s => Ψ n s
  | o, s => Φ o s

section
variable {t : Prop} {fuel : Nat} {γ : Context σ} {f : Sem σ} {g : Nat → Sem σ} {c d a b : Cmd σ}
  {s : σ} {Φ Ψ : Outcome → σ → Prop}

theorem Sem.Yields.mono (h : f.Yields t Φ s) (hΦ : ∀ o s', Φ o s' → Ψ o s') : f.Yields t Ψ s := by
  unfold Sem.Yields at h ⊢
  split at h
  · exact hΦ _ _ h
  · exact h

theorem Sem.Yields.ends (h : f.Yields False Φ s) : ∃ o s', f s = some (o, s') ∧ Φ o s' := by
  unfold Sem.Yields at h
  split at h
  · rename_i o s' hf
    exact ⟨o, s', hf, h⟩
  · exact h.elim

theorem Sem.Yields.of_eq {o : Outcome} {s' : σ} (h : f.Yields t Φ s) (hf : f s = some (o, s')) :
    Φ o s' := by
  rw [Sem.Yields, hf] at h
  exact h

theorem yields_congr (h : ∀ o s', Φ o s' ↔ Ψ o s') : f.Yields t Φ s ↔ f.Yields t Ψ s :=
  ⟨fun hf => hf.mono fun o s' => (h o s').1, fun hf => hf.mono fun o s' => (h o s').2⟩

theorem after_congr {A B : Nat → σ → Prop} (h : ∀ n s', A n s' ↔ B n s') (o : Outcome) (s' : σ) :
    after Φ A o s' ↔ after Φ B o s' := by
  cases o with
  | status n => exact h n s'
  | returned | exited => exact Iff.rfl

theorem yields_andThen :
    (f.andThen g).Yields t Φ s ↔ f.Yields t (after Φ fun n s' => (g n).Yields t Φ s') s := by
  unfold Sem.Yields Sem.andThen
  cases f s with
  | none => exact Iff.rfl
  | some r =>
    obtain ⟨o, s'⟩ := r
    cases o <;> exact Iff.rfl

theorem yields_ite {n : Nat} {f' : Sem σ} : (if n = 0 then f else f' : Sem σ).Yields t Φ s ↔
    if n = 0 then f.Yields t Φ s else f'.Yields t Φ s := by
  split <;> exact Iff.rfl

theorem yields_seq : (eval fuel (.seq c d) γ).Yields t Φ s ↔
    (eval fuel c γ).Yields t (after Φ fun _ s' => (eval fuel d γ).Yields t Φ s') s :=
  yields_andThen

theorem yields_and : (eval fuel (.and c d) γ).Yields t Φ s ↔
    (eval fuel c γ.unchecked).Yields t (after Φ fun n s' =>
      if n = 0 then (eval fuel d γ).Yields t Φ s' else Φ (.status n) s') s :=
  yields_andThen.trans (yields_congr (after_congr fun _ _ => yields_ite))

theorem yields_or : (eval fuel (.or c d) γ).Yields t Φ s ↔
    (eval fuel c γ.unchecked).Yields t (after Φ fun n s' =>
      if n = 0 then Φ (.status 0) s' else (eval fuel d γ).Yields t Φ s') s :=
  yields_andThen.trans (yields_congr (after_congr fun _ _ => yields_ite))

theorem yields_cond : (eval fuel (.cond c a b) γ).Yields t Φ s ↔
    (eval fuel c γ.unchecked).Yields t (after Φ fun n s' =>
      if n = 0 then (eval fuel a γ).Yields t Φ s' else (eval fuel b γ).Yields t Φ s') s :=
  yields_andThen.trans (yields_congr (after_congr fun _ _ => yields_ite))

/-- What the handler leaves when it runs. -/
def Handled (t : Prop) (γ : Context σ) (place : Place) (n : Nat) (Φ : Outcome → σ → Prop) (s : σ) :
    Prop :=
  match γ.trap with
  | none => Φ (.exited n) s
  | some handler => (handler place n).Yields t (fun o s' => Φ (.exited (match o with
      | .exited m => m
      | _ => n)) s') s

theorem yields_settle {place : Place} {n : Nat} : (settle γ place n).Yields t Φ s ↔
    if n = 0 ∨ γ.checked = false then Φ (.status n) s else Handled t γ place n Φ s := by
  unfold settle Handled Sem.Yields
  by_cases h : n = 0 ∨ γ.checked = false
  · simp only [if_pos h]
  · simp only [if_neg h]
    cases γ.trap with
    | none => exact Iff.rfl
    | some handler =>
      dsimp only
      cases handler place n s with
      | none => exact Iff.rfl
      | some r =>
        obtain ⟨o, s'⟩ := r
        cases o <;> exact Iff.rfl

theorem yields_simple {place : Place} {f : σ → Nat × σ} :
    (eval fuel (.simple place f) γ).Yields t Φ s ↔
    if (f s).1 = 0 ∨ γ.checked = false then Φ (.status (f s).1) (f s).2
    else Handled t γ place (f s).1 Φ (f s).2 := yields_settle

theorem yields_call {place : Place} : (eval fuel (.call place c) γ).Yields t Φ s ↔
    (eval fuel c γ.inFunction).Yields t (fun o s' => match o with
      | .status n | .returned n => (settle γ place n).Yields t Φ s'
      | .exited n => Φ (.exited n) s') s := by
  have hcall : eval fuel (.call place c) γ s = match eval fuel c γ.inFunction s with
    | some (.status n, s') | some (.returned n, s') => settle γ place n s'
    | r => r := rfl
  unfold Sem.Yields
  rw [hcall]
  cases eval fuel c γ.inFunction s with
  | none => exact Iff.rfl
  | some r =>
    obtain ⟨o, s'⟩ := r
    cases o <;> exact Iff.rfl

theorem yields_ret {n : Nat} : (eval fuel (.ret n) γ).Yields t Φ s ↔ Φ (.returned n) s := Iff.rfl

theorem yields_exit {n : Nat} : (eval fuel (.exit n) γ).Yields t Φ s ↔ Φ (.exited n) s := Iff.rfl

/-- A loop, by an invariant. The loop ends if each round makes a measure go down. -/
theorem yields_untilDo (J : σ → Prop) (v : σ → Nat)
    (hround : ∀ s, J s → (eval fuel c γ.unchecked).Yields t (after Φ fun n s' =>
      if n = 0 then Φ (.status 0) s'
      else (eval fuel d γ).Yields t (after Φ fun _ s'' => J s'' ∧ (v s'' < v s ∨ t)) s') s)
    (hJ : J s) (hv : v s < fuel ∨ t) : (eval fuel (.untilDo c d) γ).Yields t Φ s := by
  have hloop : ∀ k s, J s → v s < k ∨ t →
      (repeatUntil (eval fuel c γ.unchecked) (eval fuel d γ) k).Yields t Φ s := by
    intro k
    induction k with
    | zero => exact fun s _ hv => hv.resolve_left (Nat.not_lt_zero _)
    | succ k ih =>
      intro s hJ hv
      refine yields_andThen.2 ((hround s hJ).mono fun o s' ho => ?_)
      cases o with
      | returned | exited => exact ho
      | status n =>
        dsimp only [after] at ho ⊢
        split
        · rename_i hn
          rw [if_pos hn] at ho
          exact ho
        · rename_i hn
          rw [if_neg hn] at ho
          refine yields_andThen.2 (ho.mono fun o s'' ho => ?_)
          cases o with
          | returned | exited => exact ho
          | status m =>
            obtain ⟨hJ', hv'⟩ := ho
            refine ih s'' hJ' ?_
            rcases hv' with hv' | ht
            · exact hv.imp_left fun hv => Nat.lt_of_lt_of_le hv' (Nat.le_of_lt_succ hv)
            · exact .inr ht
  exact hloop fuel s hJ hv

end

/-! ## Pre- and postconditions -/

/-- From a state in `P` the command ends with a status as `Q` says or as `E` says, where `t` is as
in `Sem.Yields`. -/
def Triple (t : Prop) (fuel : Nat) (γ : Context σ) (P : σ → Prop) (c : Cmd σ) (Q : Nat → σ → Prop)
    (E : Outcome → σ → Prop) : Prop := ∀ s, P s → (eval fuel c γ).Yields t (after E Q) s

section
variable {t : Prop} {fuel : Nat} {γ : Context σ} {P P' R : σ → Prop} {c d a b : Cmd σ} {cs : List (Cmd σ)}
  {Q Q' : Nat → σ → Prop} {E E' : Outcome → σ → Prop}

theorem Triple.conseq (h : Triple t fuel γ P c Q E) (hP : ∀ s, P' s → P s)
    (hQ : ∀ n s, Q n s → Q' n s) (hE : ∀ o s, E o s → E' o s) : Triple t fuel γ P' c Q' E' :=
  fun s hs => (h s (hP s hs)).mono fun o s' ho => by
    cases o with
    | status n => exact hQ n s' ho
    | returned | exited => exact hE _ s' ho

theorem Triple.post (h : Triple t fuel γ P c Q E) (hQ : ∀ n s, Q n s → Q' n s) :
    Triple t fuel γ P c Q' E := h.conseq (fun _ h => h) hQ fun _ _ h => h

theorem Triple.pre (h : Triple t fuel γ P c Q E) (hP : ∀ s, P' s → P s) : Triple t fuel γ P' c Q E :=
  fun s hs => h s (hP s hs)

theorem Triple.seq (hc : Triple t fuel γ P c (fun _ => R) E) (hd : Triple t fuel γ R d Q E) :
    Triple t fuel γ P (.seq c d) Q E := fun s hs =>
  yields_seq.2 ((hc s hs).mono fun o s' ho => by
    cases o with
    | status n => exact hd s' ho
    | returned | exited => exact ho)

theorem Triple.cons (hc : Triple t fuel γ P c (fun _ => R) E)
    (hcs : Triple t fuel γ R (block (d :: cs)) Q E) : Triple t fuel γ P (block (c :: d :: cs)) Q E :=
  hc.seq hcs

theorem Triple.or (hc : Triple t fuel γ.unchecked P c (fun n s => if n = 0 then Q 0 s else R s) E)
    (hd : Triple t fuel γ R d Q E) : Triple t fuel γ P (.or c d) Q E := fun s hs =>
  yields_or.2 ((hc s hs).mono fun o s' ho => by
    cases o with
    | status n =>
      dsimp only [after] at ho ⊢
      split
      · rename_i hn
        rwa [if_pos hn] at ho
      · rename_i hn
        rw [if_neg hn] at ho
        exact hd s' ho
    | returned | exited => exact ho)

theorem Triple.and (hc : Triple t fuel γ.unchecked P c (fun n s => if n = 0 then R s else Q n s) E)
    (hd : Triple t fuel γ R d Q E) : Triple t fuel γ P (.and c d) Q E := fun s hs =>
  yields_and.2 ((hc s hs).mono fun o s' ho => by
    cases o with
    | status n =>
      dsimp only [after] at ho ⊢
      split
      · rename_i hn
        rw [if_pos hn] at ho
        exact hd s' ho
      · rename_i hn
        rwa [if_neg hn] at ho
    | returned | exited => exact ho)

theorem Triple.cond {T F : σ → Prop}
    (hc : Triple t fuel γ.unchecked P c (fun n s => if n = 0 then T s else F s) E)
    (ht : Triple t fuel γ T a Q E) (he : Triple t fuel γ F b Q E) :
    Triple t fuel γ P (.cond c a b) Q E := fun s hs =>
  yields_cond.2 ((hc s hs).mono fun o s' ho => by
    cases o with
    | status n =>
      dsimp only [after] at ho ⊢
      split
      · rename_i hn
        rw [if_pos hn] at ho
        exact ht s' ho
      · rename_i hn
        rw [if_neg hn] at ho
        exact he s' ho
    | returned | exited => exact ho)

theorem Triple.simple {place : Place} {f : σ → Nat × σ}
    (h : ∀ s, P s → if (f s).1 = 0 ∨ γ.checked = false then Q (f s).1 (f s).2
      else Handled t γ place (f s).1 E (f s).2) : Triple t fuel γ P (.simple place f) Q E :=
  fun s hs => yields_simple.2 (h s hs)

def Ok (P : σ → Prop) (n : Nat) (s : σ) : Prop := n = 0 ∧ P s

theorem Triple.next (hc : Triple t fuel γ P c (Ok R) E) (hcs : Triple t fuel γ R (block (d :: cs)) Q E) :
    Triple t fuel γ P (block (c :: d :: cs)) Q E :=
  (hc.post fun _ _ h => h.2).cons hcs

theorem Triple.assign {f : σ → σ} {T : σ → Prop} (hP : ∀ s, P s → T (f s)) :
    Triple t fuel γ P (assign f) (Ok T) E :=
  Triple.simple fun s hs => by
    rw [if_pos (.inl rfl)]
    exact ⟨rfl, hP s hs⟩

theorem Triple.skip {T : σ → Prop} (hP : ∀ s, P s → T s) : Triple t fuel γ P skip (Ok T) E :=
  Triple.simple fun s hs => by
    rw [if_pos (.inl rfl)]
    exact ⟨rfl, hP s hs⟩

/-- `command || other`, when the status of the first says nothing. -/
theorem Triple.either {T : σ → Prop} (hc : Triple t fuel γ.unchecked P c (fun _ => R) E)
    (hR : ∀ s, R s → T s) (hd : Triple t fuel γ R d (Ok T) E) :
    Triple t fuel γ P (.or c d) (Ok T) E :=
  Triple.or (hc.post fun n s h => by
    split
    · exact ⟨rfl, hR s h⟩
    · exact h) hd

/-- `command || true` -/
theorem Triple.tried (hc : Triple t fuel γ.unchecked P c (fun _ => R) E) :
    Triple t fuel γ P (.or c Shell.skip) (Ok R) E :=
  hc.either (fun _ h => h) (Triple.skip fun _ h => h)

/-- `if [[ … ]]` -/
theorem Triple.branch {x : σ → Bool} (ht : Triple t fuel γ (fun s => P s ∧ x s = true) a Q E)
    (he : Triple t fuel γ (fun s => P s ∧ x s = false) b Q E) :
    Triple t fuel γ P (.cond (test x) a b) Q E :=
  Triple.cond (Triple.simple fun s hs => by
    rw [if_pos (.inr rfl)]
    cases hx : x s <;> simp [hs]) ht he

/-- `[[ … ]] || command` -/
theorem Triple.unless {x : σ → Bool} {T : σ → Prop} (hP : ∀ s, P s → x s = true → T s)
    (hd : Triple t fuel γ (fun s => P s ∧ x s = false) d (Ok T) E) :
    Triple t fuel γ P (.or (test x) d) (Ok T) E :=
  Triple.or (Triple.simple fun s hs => by
    rw [if_pos (.inr rfl)]
    cases hx : x s with
    | true => simpa [hx, Ok] using hP s hs hx
    | false => simpa [hx] using hs) hd

/-- `[[ … ]] && command`, which ends with status 1 where the test fails. -/
theorem Triple.when {x : σ → Bool} {T : σ → Prop} (hP : ∀ s, P s → x s = false → T s)
    (hd : Triple t fuel γ (fun s => P s ∧ x s = true) d (fun _ => T) E) :
    Triple t fuel γ P (.and (test x) d) (fun _ => T) E :=
  Triple.and (Triple.simple fun s hs => by
    rw [if_pos (.inr rfl)]
    cases hx : x s with
    | true => simpa [hx] using hs
    | false => simpa [hx] using hP s hs hx) hd

theorem Triple.ret {n : Nat} (h : ∀ s, P s → E (.returned n) s) : Triple t fuel γ P (.ret n) Q E :=
  fun s hs => yields_ret.2 (h s hs)

theorem Triple.exit {n : Nat} (h : ∀ s, P s → E (.exited n) s) : Triple t fuel γ P (.exit n) Q E :=
  fun s hs => yields_exit.2 (h s hs)

theorem Triple.onErr {handler : Place → Nat → Cmd σ} (h : Triple t fuel
    { γ with trap := some fun place n => eval fuel (handler place n) {} } P c Q E) :
    Triple t fuel γ P (.onErr handler c) Q E := h

theorem Triple.call {place : Place} (h : Triple t fuel γ.inFunction P c
    (fun n s => n = 0 ∧ Q 0 s) fun o s => o = .returned 0 ∧ Q 0 s ∨ ∃ n, o = .exited n ∧ E o s) :
    Triple t fuel γ P (.call place c) Q E := fun s hs =>
  yields_call.2 ((h s hs).mono fun o s' ho => by
    cases o with
    | status n =>
      obtain ⟨rfl, hQ⟩ := ho
      exact yields_settle.2 (by rwa [if_pos (.inl rfl)])
    | returned n =>
      rcases ho with ⟨hn, hQ⟩ | ⟨m, hm, -⟩
      · cases hn
        exact yields_settle.2 (by rwa [if_pos (.inl rfl)])
      · cases hm
    | exited n =>
      rcases ho with ⟨hn, -⟩ | ⟨m, hm, hE⟩
      · cases hn
      · exact hE)

theorem Triple.untilDo (v : σ → Nat)
    (hc : ∀ k, Triple t fuel γ.unchecked (fun s => P s ∧ v s = k) c
      (fun n s => if n = 0 then Q 0 s else R s ∧ v s ≤ k) E)
    (hd : ∀ k, Triple t fuel γ (fun s => R s ∧ v s ≤ k) d (fun _ s => P s ∧ v s < k) E) :
    Triple t fuel γ (fun s => P s ∧ v s < fuel) (.untilDo c d) Q E := fun s hs =>
  yields_untilDo P v (fun s hP => (hc (v s) s ⟨hP, rfl⟩).mono fun o s' ho => by
    cases o with
    | status n =>
      dsimp only [after] at ho ⊢
      split
      · rename_i hn
        rwa [if_pos hn] at ho
      · rename_i hn
        rw [if_neg hn] at ho
        exact (hd (v s) s' ho).mono fun o s'' ho => by
          cases o with
          | status m => exact ⟨ho.1, .inl ho.2⟩
          | returned | exited => exact ho
    | returned | exited => exact ho) hs.1 (.inl hs.2)

theorem Triple.rounds
    (hc : Triple True fuel γ.unchecked P c (fun n s => if n = 0 then Q 0 s else R s) E)
    (hd : Triple True fuel γ R d (fun _ => P) E) : Triple True fuel γ P (.untilDo c d) Q E :=
  fun s hs => yields_untilDo P (fun _ => 0) (fun s hP => (hc s hP).mono fun o s' ho => by
    cases o with
    | status n =>
      dsimp only [after] at ho ⊢
      split
      · rename_i hn
        rwa [if_pos hn] at ho
      · rename_i hn
        rw [if_neg hn] at ho
        exact (hd s' ho).mono fun o s'' ho => by
          cases o with
          | status m => exact ⟨ho, .inr trivial⟩
          | returned | exited => exact ho
    | returned | exited => exact ho) hs (.inr trivial)

theorem runSteps_cons {cs : List (Cmd σ)} {s s' : σ} {K : σ → Prop}
    (hc : Triple True fuel {} P c (fun n s => n = 0 → K s) fun o _ => exitStatus o ≠ 0)
    (hs : P s) (h : runSteps fuel (c :: cs) s = some (0, s')) :
    ∃ s₁, K s₁ ∧ runSteps fuel cs s₁ = some (0, s') := by
  unfold runSteps at h
  split at h
  · cases h
  · rename_i o s₁ heval
    have hafter := (hc s hs).of_eq heval
    split at h
    · rename_i hzero
      cases o with
      | status n => exact ⟨s₁, hafter hzero, h⟩
      | returned | exited => exact absurd hzero hafter
    · rename_i hne
      exact absurd (congrArg Prod.fst (Option.some.inj h)) hne

end

end Shell
