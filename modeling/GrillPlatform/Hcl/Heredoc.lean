import GrillPlatform.Hcl.Template
import GrillPlatform.Text.Cut
import Mathlib.Data.List.TakeWhile

/-! The heredocs of HCL, read line by line up to the delimiter. -/

namespace Hcl

/-- Where a token of a literal would not mean itself, the marker is doubled. -/
def escape : List Char → List Char
  | '$' :: '\x7b' :: cs => '$' :: '$' :: '\x7b' :: escape cs
  | '%' :: '\x7b' :: cs => '%' :: '%' :: '\x7b' :: escape cs
  | c :: cs => c :: escape cs
  | [] => []

/-- White space that may stand around a delimiter. -/
def isBlank (c : Char) : Bool :=
  c.toNat ∈ [0x9, 0xb, 0xc, 0xd, 0x20, 0x85, 0xa0, 0x1680, 0x2028, 0x2029, 0x202f, 0x205f, 0x3000] ∨
    0x2000 ≤ c.toNat ∧ c.toNat ≤ 0x200a

def trimBlanks (line : List Char) : List Char :=
  ((line.dropWhile isBlank).reverse.dropWhile isBlank).reverse

/-- The line ends a heredoc: it holds only the delimiter, blanks aside when the reader is
lenient. -/
def closes (lenient : Bool) (delim line : List Char) : Bool :=
  (if lenient then trimBlanks line else line) = delim

/-- The lines up to the first that closes, and the text after that one; `line` is what was read of
the current line, backwards. -/
def heredocLines (ends : List Char → Bool) (line : List Char) :
    List Char → Option (List Char × List Char)
  | [] => none
  | '\n' :: cs =>
    if ends line.reverse then some ([], cs)
    else (heredocLines ends [] cs).map fun q => (line.reverse ++ '\n' :: q.1, q.2)
  | c :: cs => heredocLines ends (c :: line) cs

/-- A heredoc after the line that opens it: its value and the text after its last line. -/
def heredoc (ends : List Char → Bool) (cs : List Char) : Option (List Char × List Char) := do
  let (body, rest) ← heredocLines ends [] cs
  let v ← literal false 0 body
  some (v, rest)

theorem escape_brace {cs x : List Char} (h : escape cs = '\x7b' :: x) : ∃ y, cs = '\x7b' :: y := by
  unfold escape at h
  split at h
  · cases h
  · cases h
  · cases h
    exact ⟨_, rfl⟩
  · cases h

theorem escape_marker {m : Char} (hm : m = '$' ∨ m = '%') (cs x : List Char) :
    escape cs ≠ m :: '\x7b' :: x := by
  intro h
  unfold escape at h
  split at h
  · cases h
  · cases h
  · next c cs hd hp =>
    obtain ⟨rfl, htail⟩ := List.cons.inj h
    obtain ⟨y, rfl⟩ := escape_brace htail
    rcases hm with rfl | rfl
    · exact hd y rfl rfl
    · exact hp y rfl rfl
  · cases h

theorem denotes_escape (t : List Char) : Denotes (escape t) t := by
  fun_induction escape t with
  | case1 cs ih => exact .doubled (.inl rfl) ih
  | case2 cs ih => exact .doubled (.inr rfl) ih
  | case3 c cs hd hp ih =>
    refine .char (fun hm x => ⟨fun hx => ?_, escape_marker hm cs x⟩) ih
    obtain ⟨y, rfl⟩ := escape_brace hx
    rcases hm with rfl | rfl
    · exact hd y rfl rfl
    · exact hp y rfl rfl
  | case4 => exact .nil

theorem literal_escape (t : List Char) : literal false 0 (escape t) = some t :=
  (denotes_escape t).literal

theorem escape_of_not_mem {t : List Char} (h : '\x7b' ∉ t) : escape t = t := by
  fun_induction escape t with
  | case1 cs ih => exact absurd (by simp) h
  | case2 cs ih => exact absurd (by simp) h
  | case3 c cs hd hp ih => rw [ih fun hm => h (List.mem_cons_of_mem c hm)]
  | case4 => rfl

theorem mem_escape {c : Char} {t : List Char} (h : c ∈ t) : c ∈ escape t := by
  fun_induction escape t with
  | case1 cs ih => simp at h ⊢; tauto
  | case2 cs ih => simp at h ⊢; tauto
  | case3 d cs hd hp ih => simp at h ⊢; tauto
  | case4 => exact h

theorem not_mem_escape {c : Char} {t : List Char} (hc : c ∉ ['$', '%']) (h : c ∉ t) :
    c ∉ escape t := by
  fun_induction escape t with
  | case1 cs ih => simp at hc h ⊢; tauto
  | case2 cs ih => simp at hc h ⊢; tauto
  | case3 d cs hd hp ih => simp at hc h ⊢; tauto
  | case4 => exact h

theorem escape_line (l t : List Char) : escape (l ++ '\n' :: t) = escape l ++ '\n' :: escape t := by
  fun_induction escape l with
  | case1 cs ih => simp [escape, ih]
  | case2 cs ih => simp [escape, ih]
  | case3 c cs hd hp ih =>
    have hne : ∀ cs', cs ++ '\n' :: t = '\x7b' :: cs' → ∃ y, cs = '\x7b' :: y := by
      intro cs' h
      cases cs with
      | nil => cases h
      | cons d cs => exact ⟨cs, by rw [(List.cons.inj h).1]⟩
    rw [List.cons_append, escape, ih]
    · rfl
    · intro cs' hc h
      obtain ⟨y, hy⟩ := hne cs' h
      exact hd y hc hy
    · intro cs' hc h
      obtain ⟨y, hy⟩ := hne cs' h
      exact hp y hc hy
  | case4 => rfl

theorem mem_trimBlanks {c : Char} {line : List Char} (hm : c ∈ line) (hc : isBlank c = false) :
    c ∈ trimBlanks line := by
  have hdrop : ∀ l : List Char, c ∈ l → c ∈ l.dropWhile isBlank := by
    intro l hl
    rw [← List.takeWhile_append_dropWhile (p := isBlank) (l := l), List.mem_append] at hl
    rcases hl with h | h
    · rw [List.mem_takeWhile_imp h] at hc
      cases hc
    · exact h
  rw [trimBlanks, List.mem_reverse]
  exact hdrop _ (List.mem_reverse.2 (hdrop _ hm))

theorem closes_escape {lenient : Bool} {delim : List Char} (hd : '\x7b' ∉ delim)
    (line : List Char) :
    closes lenient delim (escape line) = closes lenient delim line := by
  by_cases hb : '\x7b' ∈ line
  · have hopen : ∀ l : List Char, '\x7b' ∈ l → closes lenient delim l = false := by
      intro l hl
      apply decide_eq_false
      rintro rfl
      cases lenient with
      | true => exact hd (mem_trimBlanks hl (by decide))
      | false => exact hd hl
    rw [hopen _ hb, hopen _ (mem_escape hb)]
  · rw [escape_of_not_mem hb]

theorem heredocLines_line {ends : List Char → Bool} {l line cs : List Char} (hl : '\n' ∉ l) :
    heredocLines ends line (l ++ '\n' :: cs) =
      if ends (line.reverse ++ l) then some ([], cs)
      else (heredocLines ends [] cs).map fun q => (line.reverse ++ l ++ '\n' :: q.1, q.2) := by
  induction l generalizing line with
  | nil => simp [heredocLines]
  | cons c l ih =>
    have hc : c ≠ '\n' := fun h => hl (h ▸ List.mem_cons_self)
    rw [List.cons_append, heredocLines]
    · rw [ih fun hm => hl (List.mem_cons_of_mem c hm)]
      simp
    · exact hc

section
variable {ends : List Char → Bool} {delim rest : List Char}

theorem heredocLines_escape (he : ∀ l, ends (escape l) = ends l) (hd : ends delim = true)
    (hn : '\n' ∉ delim) {t : List Char} (ht : ∀ l ∈ t.splitOn '\n', ends l = false) :
    heredocLines ends [] (escape t ++ '\n' :: (delim ++ '\n' :: rest)) =
      some (escape (t ++ ['\n']), rest) := by
  have hclose : heredocLines ends [] (delim ++ '\n' :: rest) = some ([], rest) := by
    rw [heredocLines_line hn, List.reverse_nil, List.nil_append, if_pos hd]
  induction t using Text.induction_cut '\n' with
  | piece l hl =>
    rw [List.splitOn_eq_singleton hl] at ht
    rw [heredocLines_line (not_mem_escape (by decide) hl), List.reverse_nil, List.nil_append, he,
      ht l List.mem_cons_self, hclose, escape_line]
    rfl
  | cut l t hl ih =>
    rw [List.splitOn_append_cons_self, List.splitOn_eq_singleton hl] at ht
    rw [escape_line, List.append_assoc, List.cons_append,
      heredocLines_line (not_mem_escape (by decide) hl), List.reverse_nil, List.nil_append, he,
      ht l (by simp), ih fun l' hl' => ht l' (by simp [hl'])]
    simp [escape_line]

theorem heredocLines_cut (he : ∀ l, ends (escape l) = ends l) {t : List Char}
    (ht : ∃ l ∈ t.splitOn '\n', ends l = true) :
    ∃ u r, heredocLines ends [] (escape t ++ '\n' :: rest) = some (escape u, r) ∧
      u.length ≤ t.length := by
  induction t using Text.induction_cut '\n' with
  | piece l hl =>
    obtain ⟨l', hl', hend⟩ := ht
    rw [List.splitOn_eq_singleton hl, List.mem_singleton] at hl'
    subst hl'
    refine ⟨[], rest, ?_, Nat.zero_le _⟩
    rw [heredocLines_line (not_mem_escape (by decide) hl), List.reverse_nil, List.nil_append, he,
      if_pos hend]
    rfl
  | cut l t hl ih =>
    rw [escape_line, List.append_assoc, List.cons_append,
      heredocLines_line (not_mem_escape (by decide) hl), List.reverse_nil, List.nil_append, he]
    by_cases hend : ends l = true
    · rw [if_pos hend]
      exact ⟨[], _, rfl, Nat.zero_le _⟩
    · obtain ⟨l', hl', hend'⟩ := ht
      rw [List.splitOn_append_cons_self, List.splitOn_eq_singleton hl, List.singleton_append,
        List.mem_cons] at hl'
      rcases hl' with rfl | hl'
      · exact absurd hend' hend
      obtain ⟨u, r, hu, hlen⟩ := ih ⟨l', hl', hend'⟩
      refine ⟨l ++ '\n' :: u, r, ?_, ?_⟩
      · rw [if_neg hend, hu, escape_line]
        rfl
      · simp
        omega

/-- An escaped text without a closing line comes back from a heredoc, with the end of its last
line. -/
theorem heredoc_escape (he : ∀ l, ends (escape l) = ends l) (hd : ends delim = true)
    (hn : '\n' ∉ delim) {t : List Char} (ht : ∀ l ∈ t.splitOn '\n', ends l = false) :
    heredoc ends (escape t ++ '\n' :: (delim ++ '\n' :: rest)) = some (t ++ ['\n'], rest) := by
  rw [heredoc, heredocLines_escape he hd hn ht]
  simp [literal_escape]

theorem not_ends_of_heredoc (he : ∀ l, ends (escape l) = ends l) {t r : List Char}
    (h : heredoc ends (escape t ++ '\n' :: rest) = some (t ++ ['\n'], r)) :
    ∀ l ∈ t.splitOn '\n', ends l = false := by
  by_contra hne
  have hcut : ∃ l ∈ t.splitOn '\n', ends l = true := by simpa using hne
  obtain ⟨u, r', hu, hlen⟩ := @heredocLines_cut _ rest he t hcut
  rw [heredoc, hu] at h
  simp [literal_escape] at h
  rw [h.1, List.length_append, List.length_singleton] at hlen
  omega

end

end Hcl
