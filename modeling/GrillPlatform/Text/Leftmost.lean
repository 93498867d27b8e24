import Mathlib.Data.List.Infix
import Mathlib.Tactic.Common

/-! The search of a pattern: the leftmost place where a language matches, and there the longest
match. -/

namespace Text
variable {α : Type}

/-- The longest text of `L` that the text begins with. -/
structure IsLongest (L : List α → Prop) (found text : List α) : Prop where
  mem : L found
  start : found <+: text
  longest : ∀ other, L other → other <+: text → other <+: found

/-- The match of `L` that begins before any other. -/
inductive IsLeftmost (L : List α → Prop) (found : List α) : List α → Prop
  | here {text : List α} (h : IsLongest L found text) : IsLeftmost L found text
  | later {a : α} {text : List α} (hnot : ∀ other, L other → ¬ other <+: a :: text)
      (h : IsLeftmost L found text) : IsLeftmost L found (a :: text)

/-- What `matchAt` finds at the start of a text is its longest match. -/
structure Finds (L : List α → Prop) (matchAt : List α → Option (List α)) : Prop where
  sound : ∀ {text found}, matchAt text = some found → L found ∧ found <+: text
  greedy : ∀ {text other}, L other → other <+: text →
    ∃ found, matchAt text = some found ∧ other <+: found

variable {L : List α → Prop} {matchAt : List α → Option (List α)} {text found other : List α}

theorem prefix_antisymm {s t : List α} (hs : s <+: t) (ht : t <+: s) : s = t :=
  hs.eq_of_length_le ht.length_le

theorem Finds.eq_some_iff (h : Finds L matchAt) :
    matchAt text = some found ↔ IsLongest L found text := by
  constructor
  · intro hfound
    obtain ⟨hmem, hstart⟩ := h.sound hfound
    refine ⟨hmem, hstart, fun other hother hprefix => ?_⟩
    obtain ⟨longest, hlongest, hle⟩ := h.greedy hother hprefix
    rwa [Option.some.inj (hfound.symm.trans hlongest)]
  · intro hfound
    obtain ⟨longest, hlongest, hle⟩ := h.greedy hfound.mem hfound.start
    obtain ⟨hmem, hstart⟩ := h.sound hlongest
    rw [hlongest, prefix_antisymm hle (hfound.longest longest hmem hstart)]

theorem Finds.eq_none_iff (h : Finds L matchAt) :
    matchAt text = none ↔ ∀ other, L other → ¬ other <+: text := by
  constructor
  · intro hnone other hother hprefix
    obtain ⟨found, hfound, -⟩ := h.greedy hother hprefix
    cases hnone.symm.trans hfound
  · intro hnot
    cases hmatch : matchAt text with
    | none => rfl
    | some found => exact absurd (h.sound hmatch).2 (hnot found (h.sound hmatch).1)

theorem isLeftmost_self (h : L text) : IsLeftmost L text text :=
  .here ⟨h, List.prefix_refl text, fun _ _ hprefix => hprefix⟩

theorem isLeftmost_nil (hnil : ¬ L []) : ¬ IsLeftmost L found [] := by
  rintro (⟨h⟩)
  exact hnil (List.prefix_nil.1 h.start ▸ h.mem)

theorem isLeftmost_cons {a : α} : IsLeftmost L found (a :: text) ↔
    IsLongest L found (a :: text) ∨
      (∀ other, L other → ¬ other <+: a :: text) ∧ IsLeftmost L found text := by
  constructor
  · intro h
    cases h with
    | here h => exact .inl h
    | later hnot h => exact .inr ⟨hnot, h⟩
  · rintro (h | ⟨hnot, h⟩)
    · exact .here h
    · exact .later hnot h

theorem Finds.search_eq_some_iff (h : Finds L matchAt) (hnil : ¬ L []) :
    text.tails.findSome? matchAt = some found ↔ IsLeftmost L found text := by
  induction text with
  | nil =>
    have hnone : matchAt [] = none :=
      h.eq_none_iff.2 fun other hother hprefix => hnil (List.prefix_nil.1 hprefix ▸ hother)
    simp [hnone, isLeftmost_nil hnil]
  | cons a text ih =>
    rw [List.tails_cons, List.findSome?_cons, isLeftmost_cons, ← h.eq_some_iff, ← ih]
    cases hmatch : matchAt (a :: text) with
    | none =>
      have hnot := h.eq_none_iff.1 hmatch
      simp only [reduceCtorEq, false_or, and_iff_right hnot]
    | some found =>
      have hsome : ¬ ∀ other, L other → ¬ other <+: a :: text := fun hnot => by
        cases hmatch.symm.trans (h.eq_none_iff.2 hnot)
      simp [hsome]

theorem Finds.isLeftmost_unique (h : Finds L matchAt) (hnil : ¬ L [])
    (hfound : IsLeftmost L found text) (hother : IsLeftmost L other text) : found = other :=
  Option.some.inj <|
    ((h.search_eq_some_iff hnil).2 hfound).symm.trans ((h.search_eq_some_iff hnil).2 hother)

theorem Finds.exists_isLeftmost (h : Finds L matchAt) (hother : L other)
    (hinside : other <:+: text) :
    ∃ found, IsLeftmost L found text := by
  induction text with
  | nil =>
    obtain ⟨found, hfound, -⟩ := h.greedy hother (List.prefix_nil.2 (List.infix_nil.1 hinside))
    exact ⟨found, .here (h.eq_some_iff.1 hfound)⟩
  | cons a text ih =>
    cases hmatch : matchAt (a :: text) with
    | some found => exact ⟨found, .here (h.eq_some_iff.1 hmatch)⟩
    | none =>
      have hnot := h.eq_none_iff.1 hmatch
      obtain ⟨found, hfound⟩ :=
        ih ((List.infix_cons_iff.1 hinside).resolve_left (hnot other hother))
      exact ⟨found, .later hnot hfound⟩

/-! ## A separator that the language does not have -/

section
variable {sep : α} {s rest : List α}

theorem prefix_cut (hsep : sep ∉ other) : other <+: s ++ sep :: rest ↔ other <+: s := by
  refine ⟨fun h => ?_, fun h => h.trans (List.prefix_append s _)⟩
  rcases List.prefix_or_prefix_of_prefix h (List.prefix_append s _) with hs | ⟨more, rfl⟩
  · exact hs
  · have hmore := (List.prefix_append_right_inj s).1 h
    rcases List.prefix_cons_iff.1 hmore with rfl | ⟨tail, rfl, -⟩
    · rw [List.append_nil]
    · exact absurd (by simp) hsep

theorem isLongest_cut (hsep : ∀ t, L t → sep ∉ t) :
    IsLongest L found (s ++ sep :: rest) ↔ IsLongest L found s := by
  constructor
  · rintro ⟨hmem, hstart, hlongest⟩
    exact ⟨hmem, (prefix_cut (hsep found hmem)).1 hstart, fun other hother hprefix =>
      hlongest other hother ((prefix_cut (hsep other hother)).2 hprefix)⟩
  · rintro ⟨hmem, hstart, hlongest⟩
    exact ⟨hmem, (prefix_cut (hsep found hmem)).2 hstart, fun other hother hprefix =>
      hlongest other hother ((prefix_cut (hsep other hother)).1 hprefix)⟩

/-- The leftmost match is in the piece before the separator, or in the rest where the language does
not match in the piece. -/
theorem isLeftmost_cut (hsep : ∀ t, L t → sep ∉ t) (hnil : ¬ L []) :
    IsLeftmost L found (s ++ sep :: rest) ↔
      IsLeftmost L found s ∨ (∀ other, L other → ¬ other <:+: s) ∧ IsLeftmost L found rest := by
  have hstarts : ∀ s, (∀ other, L other → ¬ other <+: s ++ sep :: rest) ↔
      ∀ other, L other → ¬ other <+: s :=
    fun s => forall₂_congr fun other hother => not_congr (prefix_cut (hsep other hother))
  -- a match that begins in the piece ends in it, so each place of it decides alone
  induction s with
  | nil =>
    have hnot : ∀ other, L other → ¬ other <+: [] := fun other hother hprefix =>
      hnil (List.prefix_nil.1 hprefix ▸ hother)
    have hlongest : ¬ IsLongest L found [] := fun h => hnot found h.mem h.start
    have hnone : ∀ other, L other → ¬ other <:+: [] := fun other hother hinside =>
      hnil (List.infix_nil.1 hinside ▸ hother)
    rw [List.nil_append, isLeftmost_cons, ← List.nil_append (sep :: rest), isLongest_cut hsep,
      hstarts, or_iff_right hlongest, or_iff_right (isLeftmost_nil hnil), and_iff_right hnot,
      and_iff_right hnone]
  | cons a s ih =>
    have hnone : (∀ other, L other → ¬ other <:+: a :: s) ↔
        (∀ other, L other → ¬ other <+: a :: s) ∧ ∀ other, L other → ¬ other <:+: s := by
      constructor
      · intro h
        exact ⟨fun other hother hprefix => h other hother hprefix.isInfix,
          fun other hother hinside => h other hother (List.infix_cons_iff.2 (.inr hinside))⟩
      · rintro ⟨hhere, hlater⟩ other hother hinside
        rcases List.infix_cons_iff.1 hinside with hprefix | hinside
        · exact hhere other hother hprefix
        · exact hlater other hother hinside
    calc IsLeftmost L found (a :: s ++ sep :: rest)
        ↔ IsLongest L found (a :: s ++ sep :: rest) ∨
          (∀ other, L other → ¬ other <+: a :: s ++ sep :: rest) ∧
            IsLeftmost L found (s ++ sep :: rest) := isLeftmost_cons
      _ ↔ IsLongest L found (a :: s) ∨ (∀ other, L other → ¬ other <+: a :: s) ∧
          (IsLeftmost L found s ∨
            (∀ other, L other → ¬ other <:+: s) ∧ IsLeftmost L found rest) := by
        exact or_congr (isLongest_cut hsep) (and_congr (hstarts (a :: s)) ih)
      _ ↔ _ := by rw [isLeftmost_cons, hnone, and_or_left, or_assoc, and_assoc]

end

end Text
