import GrillPlatform.Hcl.Quoted

/-! The rules of a template, apart from any reader: what a text denotes when it is read from left to
right, and when a template opens in it. -/

namespace Hcl

/-- Before a brace the character opens a template; doubled, it stands for itself. -/
def IsMarker (m : Char) : Prop := m = '$' ∨ m = '%'

/-- Neither a template nor a doubled marker starts with the character. -/
def Ordinary (c : Char) (cs : List Char) : Prop :=
  IsMarker c → ∀ x, cs ≠ '\x7b' :: x ∧ cs ≠ c :: '\x7b' :: x

inductive Denotes : List Char → List Char → Prop
  | nil : Denotes [] []
  | doubled {m : Char} {cs t : List Char} (hm : IsMarker m) (h : Denotes cs t) :
      Denotes (m :: m :: '\x7b' :: cs) (m :: '\x7b' :: t)
  | char {c : Char} {cs t : List Char} (hc : Ordinary c cs) (h : Denotes cs t) :
      Denotes (c :: cs) (c :: t)

/-- The reading comes upon a template. -/
inductive Opens : List Char → Prop
  | here {m : Char} {cs : List Char} (hm : IsMarker m) : Opens (m :: '\x7b' :: cs)
  | doubled {m : Char} {cs : List Char} (hm : IsMarker m) (h : Opens cs) :
      Opens (m :: m :: '\x7b' :: cs)
  | char {c : Char} {cs : List Char} (hc : Ordinary c cs) (h : Opens cs) : Opens (c :: cs)

theorem IsMarker.ne_brace {m : Char} (hm : IsMarker m) : m ≠ '\x7b' := by
  rcases hm with rfl | rfl <;> decide

theorem IsMarker.not_ordinary_doubled {m : Char} (hm : IsMarker m) (cs : List Char) :
    ¬ Ordinary m (m :: '\x7b' :: cs) := fun h => (h hm cs).2 rfl

theorem IsMarker.not_ordinary {m : Char} (hm : IsMarker m) (cs : List Char) :
    ¬ Ordinary m ('\x7b' :: cs) := fun h => (h hm cs).1 rfl

theorem Denotes.unique {cs t : List Char} (h : Denotes cs t) :
    ∀ {u : List Char}, Denotes cs u → t = u := by
  induction h with
  | nil =>
    rintro _ ⟨⟩
    rfl
  | doubled hm _ ih =>
    intro u hu
    cases hu with
    | doubled _ hu => rw [ih hu]
    | char hc _ => exact absurd hc (hm.not_ordinary_doubled _)
  | char hc _ ih =>
    intro u hu
    cases hu with
    | doubled hm _ => exact absurd hc (hm.not_ordinary_doubled _)
    | char _ hu => rw [ih hu]

theorem Denotes.not_opens {cs t : List Char} (h : Denotes cs t) : ¬ Opens cs := by
  induction h with
  | nil => rintro ⟨⟩
  | doubled hm _ ih =>
    intro ho
    cases ho with
    | here _ => exact hm.ne_brace rfl
    | doubled _ ho => exact ih ho
    | char hc _ => exact hm.not_ordinary_doubled _ hc
  | char hc _ ih =>
    intro ho
    cases ho with
    | here hm => exact hm.not_ordinary _ hc
    | doubled hm _ => exact hm.not_ordinary_doubled _ hc
    | char _ ho => exact ih ho

/-- Every text either denotes something or opens a template. -/
theorem denotes_or_opens (cs : List Char) : (∃ t, Denotes cs t) ∨ Opens cs := by
  induction hn : cs.length using Nat.strong_induction_on generalizing cs with
  | _ n ih =>
  subst hn
  cases cs with
  | nil => exact .inl ⟨[], .nil⟩
  | cons c cs =>
    by_cases hc : Ordinary c cs
    · rcases ih cs.length (by simp) cs rfl with ⟨t, ht⟩ | ho
      · exact .inl ⟨c :: t, .char hc ht⟩
      · exact .inr (.char hc ho)
    · unfold Ordinary at hc
      push Not at hc
      obtain ⟨hm, x, hx⟩ := hc
      by_cases hb : cs = '\x7b' :: x
      · subst hb
        exact .inr (.here hm)
      · obtain rfl := hx hb
        rcases ih x.length (by simp; omega) x rfl with ⟨t, ht⟩ | ho
        · exact .inl ⟨c :: '\x7b' :: t, .doubled hm ht⟩
        · exact .inr (.doubled hm ho)

/-! ## The reader of literals -/

theorem literal_token {q : Bool} {c : Char} {cs : List Char} {t : List Char × Nat}
    (h : token q (c :: cs) = some t) :
    literal q 0 (c :: cs) = (literal q t.2 cs).map (t.1 ++ ·) := by
  rw [literal, h]
  cases hl : literal q t.2 cs <;> simp [hl]

theorem token_ordinary {c : Char} {cs : List Char} (hc : Ordinary c cs) :
    token false (c :: cs) = some ([c], 0) := by
  by_cases hb : c = '\\'
  · subst hb
    rfl
  · exact token_of_not hb (fun h x => (hc (.inl h) x).1) (fun h x => h ▸ (hc (.inl h) x).2)
      (fun h x => (hc (.inr h) x).1) fun h x => h ▸ (hc (.inr h) x).2

theorem literal_doubled {m : Char} (hm : IsMarker m) (cs : List Char) :
    literal false 0 (m :: m :: '\x7b' :: cs) = (literal false 0 cs).map (m :: '\x7b' :: ·) := by
  have ht : token false (m :: m :: '\x7b' :: cs) = some ([m, '\x7b'], 2) := by
    rcases hm with rfl | rfl <;> rfl
  rw [literal_token ht]
  rfl

theorem Denotes.literal {cs t : List Char} (h : Denotes cs t) : literal false 0 cs = some t := by
  induction h with
  | nil => rfl
  | doubled hm _ ih => rw [literal_doubled hm, ih]; rfl
  | char hc _ ih => rw [literal_token (token_ordinary hc), ih]; rfl

theorem Opens.literal {cs : List Char} (h : Opens cs) : literal false 0 cs = none := by
  induction h with
  | here hm => rcases hm with rfl | rfl <;> rfl
  | doubled hm _ ih => rw [literal_doubled hm, ih]; rfl
  | char hc _ ih => rw [literal_token (token_ordinary hc), ih]; rfl

/-- The reader accepts the texts that denote something, and reads what they denote. -/
theorem literal_iff {cs t : List Char} : Hcl.literal false 0 cs = some t ↔ Denotes cs t := by
  constructor
  · intro h
    rcases denotes_or_opens cs with ⟨u, hu⟩ | ho
    · cases hu.literal.symm.trans h
      exact hu
    · cases ho.literal.symm.trans h
  · exact Denotes.literal

end Hcl
