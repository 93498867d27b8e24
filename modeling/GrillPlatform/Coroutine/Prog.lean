import Mathlib.Logic.Basic
import Mathlib.Tactic.Common

/-! Coroutines as trees of awaited calls. A program awaits a call of a signature, continues with
the answer, and ends by returning or by raising. Protocols on the calls are checked on the tree. -/

namespace Coroutine

/-- The calls a program may await, each with the type of its answer. -/
structure Sig where
  Op : Type
  Resp : Op → Type

inductive Prog (S : Sig) (X α : Type) where
  | pure (a : α)
  | raise (x : X)
  | call (op : S.Op) (next : S.Resp op → Prog S X α)

namespace Prog
variable {S : Sig} {X α β : Type}

def bind : Prog S X α → (α → Prog S X β) → Prog S X β
  | .pure a, f => f a
  | .raise x, _ => .raise x
  | .call op next, f => .call op fun r => (next r).bind f

def tryCatch : Prog S X α → (X → Prog S X α) → Prog S X α
  | .pure a, _ => .pure a
  | .raise x, h => h x
  | .call op next, h => .call op fun r => (next r).tryCatch h

instance : Monad (Prog S X) where
  pure := .pure
  bind := .bind

instance : MonadExceptOf X (Prog S X) where
  throw := .raise
  tryCatch := .tryCatch

def ofExcept : Except X α → Prog S X α
  | .ok a => .pure a
  | .error x => .raise x

/-- One call that cannot fail. -/
def emit (op : S.Op) : Prog S X (S.Resp op) := .call op .pure

def attempt (p : Prog S X α) : Prog S X (Except X α) :=
  (p.bind fun a => .pure (.ok a)).tryCatch fun x => .pure (.error x)

/-- `for x in xs: await f(x)`. -/
def forEach : List β → (β → Prog S X Unit) → Prog S X Unit
  | [], _ => .pure ()
  | x :: xs, f => (f x).bind fun _ => forEach xs f

@[simp] theorem pure_eq (a : α) : (Pure.pure a : Prog S X α) = .pure a := rfl

@[simp] theorem bind_eq (p : Prog S X α) (f : α → Prog S X β) : p >>= f = p.bind f := rfl

@[simp] theorem throw_eq (x : X) : (throw x : Prog S X α) = .raise x := rfl

@[simp] theorem tryCatch_eq (p : Prog S X α) (h : X → Prog S X α) :
    (MonadExcept.tryCatch p h : Prog S X α) = p.tryCatch h := rfl

@[simp] theorem tryCatchThe_eq (p : Prog S X α) (h : X → Prog S X α) :
    (tryCatchThe X p h : Prog S X α) = p.tryCatch h := rfl

theorem bind_assoc {δ : Type} (p : Prog S X α) (f : α → Prog S X β) (g : β → Prog S X δ) :
    (p.bind f).bind g = p.bind fun a => (f a).bind g := by
  induction p with
  | pure | raise => rfl
  | call op next ih => exact congrArg _ (funext ih)

/-- Every call the program may make, on any branch, satisfies `A`. -/
def Calls (A : S.Op → Prop) : Prog S X α → Prop
  | .pure _ => True
  | .raise _ => True
  | .call op next => A op ∧ ∀ r, (next r).Calls A

/-- Some branch of the program makes a call that satisfies `P`. -/
def May (P : S.Op → Prop) : Prog S X α → Prop
  | .pure _ => False
  | .raise _ => False
  | .call op next => P op ∨ ∃ r, (next r).May P

theorem Calls.mono {A B : S.Op → Prop} (h : ∀ op, A op → B op) {p : Prog S X α}
    (hp : p.Calls A) : p.Calls B := by
  induction p with
  | pure | raise => trivial
  | call op next ih => exact ⟨h op hp.1, fun r => ih r (hp.2 r)⟩

theorem calls_bind {A : S.Op → Prop} {p : Prog S X α} {f : α → Prog S X β}
    (hp : p.Calls A) (hf : ∀ a, (f a).Calls A) : (p.bind f).Calls A := by
  induction p with
  | pure a => exact hf a
  | raise => trivial
  | call op next ih => exact ⟨hp.1, fun r => ih r (hp.2 r)⟩

theorem calls_tryCatch {A : S.Op → Prop} {p : Prog S X α} {h : X → Prog S X α}
    (hp : p.Calls A) (hh : ∀ x, (h x).Calls A) : (p.tryCatch h).Calls A := by
  induction p with
  | pure => trivial
  | raise x => exact hh x
  | call op next ih => exact ⟨hp.1, fun r => ih r (hp.2 r)⟩

theorem calls_ofExcept {A : S.Op → Prop} (e : Except X α) : (ofExcept e : Prog S X α).Calls A := by
  cases e <;> trivial

theorem calls_ofExcept_bind {A : S.Op → Prop} {e : Except X α} {f : α → Prog S X β}
    (h : ∀ a, e = .ok a → (f a).Calls A) : ((ofExcept e).bind f).Calls A := by
  cases e with
  | error x => trivial
  | ok a => exact h a rfl

theorem calls_attempt {A : S.Op → Prop} {p : Prog S X α} (hp : p.Calls A) :
    p.attempt.Calls A :=
  calls_tryCatch (calls_bind hp fun _ => trivial) fun _ => trivial

theorem calls_forEach {A : S.Op → Prop} {xs : List β} {f : β → Prog S X Unit}
    (hf : ∀ x ∈ xs, (f x).Calls A) : (forEach xs f).Calls A := by
  induction xs with
  | nil => trivial
  | cons x xs ih =>
    exact calls_bind (hf x List.mem_cons_self) fun _ => ih fun y hy =>
      hf y (List.mem_cons_of_mem x hy)

theorem calls_true (p : Prog S X α) : p.Calls fun _ => True := by
  induction p with
  | pure | raise => trivial
  | call op next ih => exact ⟨trivial, ih⟩

/-- A call that some branch makes is one of those every branch is allowed. -/
theorem Calls.of_may {A P : S.Op → Prop} {p : Prog S X α} (hp : p.Calls A) (hm : p.May P) :
    ∃ op, A op ∧ P op := by
  induction p with
  | pure | raise => exact hm.elim
  | call op next ih =>
    rcases hm with h | ⟨r, h⟩
    · exact ⟨op, hp.1, h⟩
    · exact ih r (hp.2 r) h

end Prog

/-- A protocol on calls: a ghost state says which calls are allowed, and each answer moves it. -/
structure Protocol (S : Sig) (Γ : Type) where
  pre : Γ → S.Op → Prop
  post : Γ → (op : S.Op) → S.Resp op → Γ

namespace Prog
variable {S : Sig} {X α β Γ : Type} {P : Protocol S Γ}

/-- Every branch of the program keeps the protocol from `γ` on and ends as `Q` says. -/
def Follows (P : Protocol S Γ) (Q : Γ → Except X α → Prop) : Γ → Prog S X α → Prop
  | γ, .pure a => Q γ (.ok a)
  | γ, .raise x => Q γ (.error x)
  | γ, .call op next => P.pre γ op ∧ ∀ r, (next r).Follows P Q (P.post γ op r)

theorem Follows.mono {Q R : Γ → Except X α → Prop} (h : ∀ γ e, Q γ e → R γ e)
    {p : Prog S X α} {γ : Γ} (hp : p.Follows P Q γ) : p.Follows P R γ := by
  induction p generalizing γ with
  | pure a => exact h γ _ hp
  | raise x => exact h γ _ hp
  | call op next ih => exact ⟨hp.1, fun r => ih r (hp.2 r)⟩

def Ended : Prog S X α → Prop
  | .call .. => False
  | _ => True

instance Ended.decidable : (p : Prog S X α) → Decidable p.Ended
  | .call .. => isFalse id
  | .pure _ | .raise _ => isTrue trivial

theorem Follows.of_ended {Q : Γ → Except X α → Prop} {p : Prog S X α} {γ : Γ}
    (h : p.Follows P Q γ) (he : p.Ended) : ∃ e, Q γ e := by
  cases p with
  | pure a => exact ⟨_, h⟩
  | raise x => exact ⟨_, h⟩
  | call => exact he.elim

theorem follows_bind {Q : Γ → Except X β → Prop} {p : Prog S X α} {f : α → Prog S X β} {γ : Γ} :
    (p.bind f).Follows P Q γ ↔
      p.Follows P (fun γ' e => match e with
        | .ok a => (f a).Follows P Q γ'
        | .error x => Q γ' (.error x)) γ := by
  induction p generalizing γ with
  | pure | raise => exact Iff.rfl
  | call op next ih => exact and_congr Iff.rfl (forall_congr' fun r => ih r)

theorem follows_tryCatch {Q : Γ → Except X α → Prop} {p : Prog S X α} {h : X → Prog S X α}
    {γ : Γ} : (p.tryCatch h).Follows P Q γ ↔
      p.Follows P (fun γ' e => match e with
        | .ok a => Q γ' (.ok a)
        | .error x => (h x).Follows P Q γ') γ := by
  induction p generalizing γ with
  | pure | raise => exact Iff.rfl
  | call op next ih => exact and_congr Iff.rfl (forall_congr' fun r => ih r)

theorem follows_ofExcept {Q : Γ → Except X α → Prop} (e : Except X α) {γ : Γ} :
    (ofExcept e : Prog S X α).Follows P Q γ ↔ Q γ e := by
  cases e <;> exact Iff.rfl

theorem follows_attempt {Q : Γ → Except X (Except X α) → Prop} {p : Prog S X α} {γ : Γ} :
    p.attempt.Follows P Q γ ↔ p.Follows P (fun γ' e => Q γ' (.ok e)) γ := by
  rw [attempt, follows_tryCatch, follows_bind]
  constructor <;> refine Follows.mono fun γ' e he => ?_ <;> cases e <;> exact he

theorem follows_attempt_bind {Q : Γ → Except X β → Prop} {p : Prog S X α}
    {f : Except X α → Prog S X β} {γ : Γ} : (p.attempt.bind f).Follows P Q γ ↔
      p.Follows P (fun γ' e => (f e).Follows P Q γ') γ := follows_bind.trans follows_attempt

/-- From a ghost state in `I` the program keeps the protocol and ends in `I`, by returning or by
raising. -/
def Maintains (P : Protocol S Γ) (I : Γ → Prop) (p : Prog S X α) : Prop :=
  ∀ γ, I γ → p.Follows P (fun γ' _ => I γ') γ

variable {I : Γ → Prop}

theorem Maintains.follows {Q : Γ → Except X α → Prop} {γ : Γ} {p : Prog S X α}
    (hp : p.Maintains P I) (hγ : I γ) (hQ : ∀ γ' e, I γ' → Q γ' e) : p.Follows P Q γ :=
  (hp γ hγ).mono fun γ' e h => hQ γ' e h

theorem Maintains.bind {Q : Γ → Except X β → Prop} {γ : Γ} {p : Prog S X α} {f : α → Prog S X β}
    (hp : p.Maintains P I) (hγ : I γ) (hf : ∀ a γ', I γ' → (f a).Follows P Q γ')
    (hQ : ∀ x γ', I γ' → Q γ' (.error x)) : (p.bind f).Follows P Q γ :=
  follows_bind.2 (hp.follows hγ fun γ' e h => by
    cases e with
    | error x => exact hQ x γ' h
    | ok a => exact hf a γ' h)

theorem maintains_pure (a : α) : (.pure a : Prog S X α).Maintains P I := fun _ h => h

theorem maintains_bind {p : Prog S X α} {f : α → Prog S X β} (hp : p.Maintains P I)
    (hf : ∀ a, (f a).Maintains P I) : (p.bind f).Maintains P I := fun _ h =>
  hp.bind h (fun a γ' => hf a γ') fun _ _ h => h

theorem maintains_tryCatch {p : Prog S X α} {h : X → Prog S X α} (hp : p.Maintains P I)
    (hh : ∀ x, (h x).Maintains P I) : (p.tryCatch h).Maintains P I := fun _ hγ =>
  follows_tryCatch.2 (hp.follows hγ fun γ' e h' => by
    cases e with
    | error x => exact hh x γ' h'
    | ok a => exact h')

theorem Maintains.follows_bind {γ : Γ} {p : Prog S X α} {f : α → Prog S X β}
    (hp : p.Maintains P fun γ' => γ' = γ) (hf : ∀ a, (f a).Follows P (fun _ _ => True) γ) :
    (p.bind f).Follows P (fun _ _ => True) γ :=
  hp.bind rfl (fun a _ h => h ▸ hf a) fun _ _ _ => trivial

theorem follows_tryCatch_any {γ : Γ} {p : Prog S X α} {h : X → Prog S X α}
    (hp : p.Follows P (fun _ _ => True) γ) (hh : ∀ x, (h x).Maintains P fun _ => True) :
    (p.tryCatch h).Follows P (fun _ _ => True) γ :=
  follows_tryCatch.2 (hp.mono fun γ' e _ => by
    cases e with
    | error x => exact hh x γ' trivial
    | ok a => trivial)

theorem maintains_attempt {p : Prog S X α} (hp : p.Maintains P I) : p.attempt.Maintains P I :=
  fun _ h => follows_attempt.2 (hp.follows h fun _ _ h => h)

theorem maintains_forEach {xs : List β} {f : β → Prog S X Unit}
    (hf : ∀ x ∈ xs, (f x).Maintains P I) : (forEach xs f).Maintains P I := by
  induction xs with
  | nil => exact maintains_pure ()
  | cons x xs ih =>
    exact maintains_bind (hf x List.mem_cons_self) fun _ =>
      ih fun y hy => hf y (List.mem_cons_of_mem x hy)

theorem Calls.maintains {A : S.Op → Prop} {p : Prog S X α} (hp : p.Calls A)
    (hA : ∀ γ op, I γ → A op → P.pre γ op ∧ ∀ r, I (P.post γ op r)) : p.Maintains P I := by
  induction p with
  | pure | raise => exact fun _ h => h
  | call op next ih =>
    exact fun γ h => ⟨(hA γ op h hp.1).1, fun r => ih r (hp.2 r) _ ((hA γ op h hp.1).2 r)⟩

end Prog
end Coroutine
