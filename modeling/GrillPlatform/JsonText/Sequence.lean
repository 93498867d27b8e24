import Mathlib.Data.List.Basic

/-! The arrays and objects of a JSON text: items between commas, up to a closing bracket. -/

namespace JsonText
variable {α β : Type}

def isBlank (c : Char) : Bool := c = ' ' || c = '\n' || c = '\r' || c = '\t'

def skip (cs : List Char) : List Char := cs.dropWhile isBlank

section
variable (item : List Char → Option (α × List Char)) (close : Char)

/-- One item or more. -/
def readItems : Nat → List Char → Option (List α × List Char)
  | 0, _ => none
  | fuel + 1, cs => do
    let (a, cs) ← item cs
    let cs := skip cs
    if cs.head? = some ',' then
      let (as, cs) ← readItems fuel cs.tail
      return (a :: as, cs)
    else if cs.head? = some close then return ([a], cs.tail)
    else none

def readSequence (fuel : Nat) (cs : List Char) : Option (List α × List Char) :=
  if (skip cs).head? = some close then some ([], (skip cs).tail) else readItems item close fuel cs

end

section
variable {item : List Char → Option (α × List Char)} {close : Char} {P : α → Prop}

theorem readItems_forall (h : ∀ cs a rest, item cs = some (a, rest) → P a) {fuel : Nat}
    {cs rest : List Char} {as : List α} (hr : readItems item close fuel cs = some (as, rest)) :
    ∀ a ∈ as, P a := by
  induction fuel generalizing cs as rest with
  | zero => cases hr
  | succ fuel ih =>
    rw [readItems] at hr
    obtain ⟨⟨a, cs'⟩, ha, hr⟩ := Option.bind_eq_some_iff.1 hr
    dsimp only at hr
    split at hr
    · obtain ⟨⟨as', cs''⟩, has, hr⟩ := Option.bind_eq_some_iff.1 hr
      cases hr
      exact List.forall_mem_cons.2 ⟨h _ _ _ ha, ih has⟩
    · split at hr
      · cases hr
        exact List.forall_mem_cons.2 ⟨h _ _ _ ha, fun _ hm => absurd hm List.not_mem_nil⟩
      · cases hr

theorem readSequence_forall (h : ∀ cs a rest, item cs = some (a, rest) → P a) {fuel : Nat}
    {cs rest : List Char} {as : List α} (hr : readSequence item close fuel cs = some (as, rest)) :
    ∀ a ∈ as, P a := by
  unfold readSequence at hr
  split at hr
  · cases hr
    exact fun _ hm => absurd hm List.not_mem_nil
  · exact readItems_forall h hr

end

/-- The items with a comma and a blank between them. -/
def join (texts : List (List Char)) : List Char := List.intercalate [',', ' '] texts

theorem join_cons (t : List Char) {ts : List (List Char)} (h : ts ≠ []) :
    join (t :: ts) = t ++ (',' :: ' ' :: join ts) := by
  obtain ⟨u, us, rfl⟩ := List.exists_cons_of_ne_nil h
  simp [join, List.intercalate]

theorem join_singleton (t : List Char) : join [t] = t := by
  simp [join, List.intercalate]

theorem length_le_join {t : List Char} {ts : List (List Char)} (h : t ∈ ts) :
    t.length ≤ (join ts).length := by
  induction ts with
  | nil => cases h
  | cons u ts ih =>
    by_cases hnil : ts = []
    · rw [hnil] at h ⊢
      obtain rfl := List.mem_singleton.1 h
      exact Nat.le_of_eq (congrArg List.length (join_singleton t)).symm
    · rw [join_cons u hnil, List.length_append, List.length_cons, List.length_cons]
      rcases List.mem_cons.1 h with rfl | h
      · exact Nat.le_add_right ..
      · have := ih h
        omega

theorem count_le_join {ts : List (List Char)}
    (h : ∀ t ∈ ts, t ≠ []) : ts.length ≤ (join ts).length := by
  induction ts with
  | nil => exact Nat.zero_le _
  | cons u ts ih =>
    have hu : 0 < u.length := List.length_pos_iff.2 (h u List.mem_cons_self)
    have hts := ih fun t ht => h t (List.mem_cons_of_mem _ ht)
    by_cases hnil : ts = []
    · rw [hnil, join_singleton]
      exact hu
    · rw [join_cons u hnil, List.length_append, List.length_cons, List.length_cons,
        List.length_cons]
      omega

theorem skip_cons {c : Char} (h : isBlank c = false) (cs : List Char) :
    skip (c :: cs) = c :: cs := by
  rw [skip, List.dropWhile_cons_of_neg (by simp [h])]

section
variable {item : List Char → Option (β × List Char)} {close : Char} {text : α → List Char}
  {result : α → Option β}

/-- The item is read up to what follows it in the sequence. -/
def ItemRead (item : List Char → Option (β × List Char)) (close : Char) (t : List Char)
    (r : Option β) : Prop :=
  ∀ c rest, c = ',' ∨ c = close → item (t ++ c :: rest) = r.map (·, c :: rest)

section
variable {cs rest : List Char} {b : β} {fuel : Nat}

theorem readItems_none (h : item cs = none) : readItems item close (fuel + 1) cs = none := by
  rw [readItems, h]
  rfl

theorem readItems_last (hblank : isBlank close = false) (hcomma : close ≠ ',')
    (h : item cs = some (b, close :: rest)) :
    readItems item close (fuel + 1) cs = some ([b], rest) := by
  have hne : (close :: rest).head? ≠ some ',' := by simpa using hcomma
  rw [readItems, h, Option.bind_eq_bind, Option.bind_some]
  simp only [skip_cons hblank]
  rw [if_neg hne, List.head?_cons, if_pos rfl]
  rfl

theorem readItems_more (h : item cs = some (b, ',' :: rest)) :
    readItems item close (fuel + 1) cs =
      (readItems item close fuel rest).map fun p => (b :: p.1, p.2) := by
  have hskip : skip (',' :: rest) = ',' :: rest := skip_cons rfl rest
  rw [readItems, h, Option.bind_eq_bind, Option.bind_some]
  simp only [hskip, List.head?_cons, if_true, List.tail_cons]
  cases readItems item close fuel rest <;> rfl

theorem readItems_blank (h : ∀ cs, item (' ' :: cs) = item cs) :
    readItems item close fuel (' ' :: cs) = readItems item close fuel cs := by
  cases fuel with
  | zero => rfl
  | succ fuel => rw [readItems, readItems, h]

end

theorem readItems_join (hclose : isBlank close = false) (hcomma : close ≠ ',')
    (hblank : ∀ cs, item (' ' :: cs) = item cs) (rest : List Char) {as : List α}
    (hne : as ≠ []) (h : ∀ a ∈ as, ItemRead item close (text a) (result a)) {fuel : Nat}
    (hf : as.length ≤ fuel) :
    readItems item close fuel (join (as.map text) ++ close :: rest) =
      (as.mapM result).map (·, rest) := by
  induction as generalizing fuel with
  | nil => exact absurd rfl hne
  | cons a as ih =>
    have ha := h a List.mem_cons_self
    have has := fun x hx => h x (List.mem_cons_of_mem a hx)
    obtain ⟨fuel, rfl⟩ : ∃ k, fuel = k + 1 :=
      ⟨fuel - 1, by rw [List.length_cons] at hf; omega⟩
    rw [List.mapM_cons, List.map_cons]
    -- behind the last item comes the bracket, behind the others a comma and a blank
    by_cases hnil : as = []
    · subst hnil
      rw [List.map_nil, join_singleton]
      have hread := ha close rest (.inr rfl)
      cases hr : result a with
      | none =>
        rw [hr] at hread
        exact readItems_none hread
      | some b =>
        rw [hr] at hread
        exact readItems_last hclose hcomma hread
    · rw [join_cons _ (by simpa using hnil), List.append_assoc, List.cons_append, List.cons_append]
      have hread := ha ',' (' ' :: (join (as.map text) ++ close :: rest)) (.inl rfl)
      cases hr : result a with
      | none =>
        rw [hr] at hread
        exact readItems_none hread
      | some b =>
        rw [hr] at hread
        rw [readItems_more hread, readItems_blank hblank,
          ih hnil has (by rw [List.length_cons] at hf; omega)]
        cases as.mapM result <;> rfl

theorem readSequence_join (hclose : isBlank close = false) (hcomma : close ≠ ',')
    (hblank : ∀ cs, item (' ' :: cs) = item cs) (rest : List Char) {as : List α}
    (h : ∀ a ∈ as, ItemRead item close (text a) (result a))
    (hstart : ∀ a ∈ as, ∃ c cs, text a = c :: cs ∧ isBlank c = false ∧ c ≠ close) {fuel : Nat}
    (hf : as.length ≤ fuel) :
    readSequence item close fuel (join (as.map text) ++ close :: rest) =
      (as.mapM result).map (·, rest) := by
  cases as with
  | nil =>
    have hskip : skip (join [] ++ close :: rest) = close :: rest := skip_cons hclose rest
    rw [List.map_nil, readSequence, hskip, List.head?_cons, if_pos rfl]
    rfl
  | cons a as =>
    obtain ⟨c, cs, hc, hblank', hne⟩ := hstart a List.mem_cons_self
    have hhead : ∃ tail, join ((a :: as).map text) ++ close :: rest = c :: tail := by
      rw [List.map_cons]
      by_cases hnil : as.map text = []
      · rw [hnil, join_singleton, hc]
        exact ⟨_, rfl⟩
      · rw [join_cons _ hnil, hc]
        exact ⟨_, rfl⟩
    obtain ⟨tail, htail⟩ := hhead
    rw [readSequence, if_neg]
    · exact readItems_join hclose hcomma hblank rest (List.cons_ne_nil _ _) h hf
    · rw [htail, skip_cons hblank']
      simpa using hne

end

end JsonText
