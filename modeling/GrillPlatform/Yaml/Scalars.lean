import GrillPlatform.Text.Cut
import Mathlib.Data.List.DropRight

/-! Scalars of YAML, by its rules: those on one line, and the literal ones under a `|`, with the
indentation of their first line that is not blank and their last line breaks clipped to one. -/

namespace YamlText

abbrev Line := List Char

/-- The characters of a line, without those that some readers take for line breaks. -/
def isPrintable (c : Char) : Bool :=
  let n := c.toNat
  c = '\t' ∨ (0x20 ≤ n ∧ n ≤ 0x7e) ∨ (0xa0 ≤ n ∧ n ≤ 0xfffd ∧ n ≠ 0x2028 ∧ n ≠ 0x2029) ∨ 0x10000 ≤ n

def Printable (t : List Char) : Prop := ∀ c ∈ t, isPrintable c = true

-- over the characters of the text, not over all characters there are
instance Printable.decidable (t : List Char) : Decidable (Printable t) :=
  List.decidableBAll (fun c => isPrintable c = true) t

/-- A text that stands for itself without quotes, and that no rule takes for a number or a word of
its own. -/
def IsPlain (t : List Char) : Prop :=
  (∃ c ∈ t.head?, c.isAlpha ∨ c = '/') ∧ (' ' ∈ t ∨ '/' ∈ t) ∧
    (∀ c ∈ t, 0x20 ≤ c.toNat ∧ c.toNat ≤ 0x7e) ∧ ¬ [':', ' '] <:+: t ∧ ¬ [' ', '#'] <:+: t ∧
    t.getLast? ∉ [some ':', some ' ']

instance IsPlain.decidable (t : List Char) : Decidable (IsPlain t) :=
  have : Decidable (∃ c ∈ t.head?, c.isAlpha ∨ c = '/') := t.head?.decidableExistsMem
  have : Decidable (∀ c ∈ t, 0x20 ≤ c.toNat ∧ c.toNat ≤ 0x7e) := List.decidableBAll _ t
  inferInstanceAs (Decidable (_ ∧ _))

/-- The scalars on one line; inside quotes there is no quote and no escape. -/
inductive Scalar : List Char → List Char → Prop
  | plain {t : List Char} (h : IsPlain t) : Scalar t t
  | single {t : List Char} (h : '\'' ∉ t) : Scalar ('\'' :: (t ++ ['\''])) t
  | double {t : List Char} (h : '"' ∉ t ∧ '\\' ∉ t) : Scalar ('"' :: (t ++ ['"'])) t

/-! ## Literal scalars -/

def indentation (l : Line) : Nat := (l.takeWhile (· = ' ')).length

def isBlank (l : Line) : Bool := l.all (· = ' ')

/-- Lines of a scalar with indentation `m`: its text lines and blank lines. -/
def belongs (m : Nat) (l : Line) : Bool := isBlank l ∨ m ≤ indentation l

def clip (ls : List Line) : List Char := (ls.rdropWhile List.isEmpty).flatMap (· ++ ['\n'])

/-- The lines of a literal scalar under a key in column `parent`, and its text. Its indentation is
that of its first line that is not blank, and no blank line before that one is longer. -/
inductive Literal (parent : Nat) : List Line → List Char → Prop
  | blank {ls : List Line} (h : ∀ l ∈ ls, isBlank l = true) : Literal parent ls []
  | shown {blanks more : List Line} {first : Line} (hb : ∀ l ∈ blanks, isBlank l = true)
      (hlen : ∀ l ∈ blanks, l.length ≤ indentation first) (hf : isBlank first = false)
      (hm : parent < indentation first)
      (hmore : ∀ l ∈ more, belongs (indentation first) l = true) :
      Literal parent (blanks ++ first :: more)
        (clip ((blanks ++ first :: more).map (List.drop (indentation first))))

/-- The first character that is no line break is no space. -/
def Unindented (t : List Char) : Prop := (t.dropWhile (· = '\n')).head? ≠ some ' '

def pad (m : Nat) : List Char := List.replicate m ' '

/-- Every line of a text but the first, further to the right. -/
def indent (m : Nat) (t : List Char) : List Char :=
  t.flatMap fun c => if c = '\n' then '\n' :: pad m else [c]

/-- The first line with anything on it does not start with a space. -/
def Starts (ls : List Line) : Prop :=
  ∀ l, ls.find? (fun l => !l.isEmpty) = some l → l.head? ≠ some ' '

section
variable {m : Nat} {l : Line} {ls : List Line}

theorem splitOn_line {t : List Char} (l : List Char) :
    (l ++ '\n' :: t).splitOn '\n' = l.splitOn '\n' ++ t.splitOn '\n' :=
  List.splitOnP_append_cons l t (by simp)

theorem splitOn_lines (ls : List (List Char)) :
    (ls.flatMap (· ++ ['\n'])).splitOn '\n' = ls.flatMap (List.splitOn '\n') ++ [[]] := by
  induction ls with
  | nil => rfl
  | cons l ls ih =>
    rw [List.flatMap_cons, List.append_assoc, List.singleton_append, splitOn_line, ih,
      List.flatMap_cons, List.append_assoc]

theorem indent_of_not_mem {l : List Char} (hl : '\n' ∉ l) : indent m l = l := by
  induction l with
  | nil => rfl
  | cons c l ih =>
    obtain ⟨hc, hl⟩ := not_or.1 (fun h => hl (List.mem_cons.2 h))
    rw [indent, List.flatMap_cons, if_neg fun h => hc h.symm]
    exact congrArg (c :: ·) (ih hl)

theorem indent_line {l : List Char} (hl : '\n' ∉ l) (t : List Char) :
    indent m (l ++ '\n' :: t) = l ++ '\n' :: (pad m ++ indent m t) := by
  have happend : indent m (l ++ '\n' :: t) = indent m l ++ '\n' :: (pad m ++ indent m t) := by
    simp [indent]
  rw [happend, indent_of_not_mem hl]

theorem not_mem_pad_append {l : List Char} (hl : '\n' ∉ l) : '\n' ∉ pad m ++ l := by
  intro h
  rcases List.mem_append.1 h with h | h
  · cases List.eq_of_mem_replicate h
  · exact hl h

theorem splitOn_indent (m : Nat) (t : List Char) :
    (pad m ++ indent m t).splitOn '\n' = (t.splitOn '\n').map (pad m ++ ·) := by
  induction t using Text.induction_cut '\n' with
  | piece l hl =>
    rw [indent_of_not_mem hl, List.splitOn_eq_singleton (not_mem_pad_append hl),
      List.splitOn_eq_singleton hl]
    rfl
  | cut l t hl ih =>
    rw [indent_line hl, ← List.append_assoc,
      List.splitOn_append_cons_self_of_not_mem (not_mem_pad_append hl), ih,
      List.splitOn_append_cons_self_of_not_mem hl]
    rfl

theorem indentation_pad (m : Nat) (l : Line) : indentation (pad m ++ l) = m + indentation l := by
  unfold indentation pad
  rw [List.takeWhile_append_of_pos (by simp), List.length_append, List.length_replicate]

theorem isBlank_pad (m : Nat) (l : Line) : isBlank (pad m ++ l) = isBlank l := by
  simp [isBlank, pad]

theorem belongs_pad (m : Nat) (l : Line) : belongs m (pad m ++ l) = true := by
  simp [belongs, indentation_pad]

theorem drop_pad (m : Nat) (l : Line) : (pad m ++ l).drop m = l := by
  simp [pad]

theorem clip_append_empty (ls : List Line) (k : Nat) :
    clip (ls ++ List.replicate k []) = clip ls := by
  have hdrop : (ls ++ List.replicate k []).rdropWhile List.isEmpty =
      ls.rdropWhile List.isEmpty := by
    induction k with
    | zero => simp
    | succ k ih =>
      rw [List.replicate_succ', ← List.append_assoc,
        List.rdropWhile_concat_pos _ _ _ rfl, ih]
  rw [clip, hdrop, clip]

theorem clip_of_getLast {ls : List Line} {l : Line} (h : ls.getLast? = some l) (hl : l ≠ []) :
    clip ls = ls.flatMap (· ++ ['\n']) := by
  obtain ⟨ls, rfl⟩ := List.getLast?_eq_some_iff.1 h
  rw [clip, List.rdropWhile_concat_neg _ _ _ (by simpa using hl)]

theorem clip_empty (k : Nat) : clip (List.replicate k []) = [] := clip_append_empty [] k

/-- A text with the line breaks at its end made one. -/
def ended (t : List Char) : List Char :=
  match t.rdropWhile (· = '\n') with
  | [] => []
  | c :: u => c :: u ++ ['\n']

theorem ended_append (t : List Char) : ended (t ++ ['\n']) = ended t := by
  have hdrop : (t ++ ['\n']).rdropWhile (· = '\n') = t.rdropWhile (· = '\n') :=
    List.rdropWhile_concat_pos _ _ _ (by simp)
  rw [ended, ended, hdrop]

theorem splitOn_append_singleton {c : Char} (hc : c ≠ '\n') (t : List Char) :
    ∃ ls l, t.splitOn '\n' = ls ++ [l] ∧ (t ++ [c]).splitOn '\n' = ls ++ [l ++ [c]] := by
  induction t using Text.induction_cut '\n' with
  | piece l hl =>
    have hlc : '\n' ∉ l ++ [c] := by
      simp [hl, hc.symm]
    exact ⟨[], l, List.splitOn_eq_singleton hl, List.splitOn_eq_singleton hlc⟩
  | cut l t hl ih =>
    obtain ⟨ls, l', ht, htc⟩ := ih
    refine ⟨l :: ls, l', ?_, ?_⟩
    · rw [List.splitOn_append_cons_self_of_not_mem hl, ht]
      rfl
    · rw [List.append_assoc, List.cons_append, List.splitOn_append_cons_self_of_not_mem hl, htc]
      rfl

theorem flatMap_splitOn (t : List Char) :
    (t.splitOn '\n').flatMap (· ++ ['\n']) = t ++ ['\n'] := by
  induction t using Text.induction_cut '\n' with
  | piece l hl => simp [List.splitOn_eq_singleton hl]
  | cut l t hl ih =>
    rw [List.splitOn_append_cons_self_of_not_mem hl, List.flatMap_cons, ih]
    simp

theorem clip_splitOn (t : List Char) : clip (t.splitOn '\n') = ended t := by
  induction t using List.reverseRecOn with
  | nil => rfl
  | append_singleton t c ih =>
    by_cases hc : c = '\n'
    · subst hc
      rw [splitOn_line, show List.splitOn '\n' [] = List.replicate 1 [] from rfl,
        clip_append_empty, ih, ended_append]
    · obtain ⟨ls, l, ht, htc⟩ := splitOn_append_singleton hc t
      have hdrop : (t ++ [c]).rdropWhile (· = '\n') = t ++ [c] :=
        List.rdropWhile_concat_neg _ _ _ (by simpa using hc)
      have hlines : (ls ++ [l ++ [c]]).rdropWhile List.isEmpty = ls ++ [l ++ [c]] :=
        List.rdropWhile_concat_neg _ _ _ (by simp)
      rw [clip, htc, hlines, ← htc, flatMap_splitOn, ended, hdrop]
      cases t <;> rfl

theorem clip_shown (k : Nat) (c : Char) (l : Line) (ls : List Line) :
    ∃ t, clip (List.replicate k [] ++ (c :: l) :: ls) = List.replicate k '\n' ++ c :: t := by
  have hdrop : ∃ ls', (List.replicate k [] ++ (c :: l) :: ls).rdropWhile List.isEmpty =
      List.replicate k [] ++ (c :: l) :: ls' := by
    induction ls using List.reverseRecOn with
    | nil => exact ⟨[], List.rdropWhile_concat_neg _ _ _ (by simp)⟩
    | append_singleton ls x ih =>
      rw [← List.cons_append, ← List.append_assoc]
      by_cases hx : x.isEmpty = true
      · rw [List.rdropWhile_concat_pos _ _ _ hx]
        exact ih
      · rw [List.rdropWhile_concat_neg _ _ _ hx]
        exact ⟨ls ++ [x], by simp⟩
  obtain ⟨ls', hls'⟩ := hdrop
  have hempty : ∀ j, (List.replicate j ([] : Line)).flatMap (· ++ ['\n']) =
      List.replicate j '\n' := by
    intro j
    induction j with
    | zero => rfl
    | succ j ih => rw [List.replicate_succ, List.flatMap_cons, ih, List.replicate_succ]; rfl
  exact ⟨l ++ '\n' :: ls'.flatMap (· ++ ['\n']), by rw [clip, hls']; simp [hempty]⟩

theorem lines_cases (ls : List Line) : (∃ k, ls = List.replicate k []) ∨
    ∃ k c l ls', ls = List.replicate k [] ++ (c :: l) :: ls' := by
  induction ls with
  | nil => exact .inl ⟨0, rfl⟩
  | cons l ls ih =>
    cases l with
    | cons c l => exact .inr ⟨0, c, l, ls, rfl⟩
    | nil =>
      rcases ih with ⟨k, rfl⟩ | ⟨k, c, l, ls', rfl⟩
      · exact .inl ⟨k + 1, rfl⟩
      · exact .inr ⟨k + 1, c, l, ls', rfl⟩

theorem starts_iff (k : Nat) (c : Char) (l : Line) (ls : List Line) :
    Starts (List.replicate k [] ++ (c :: l) :: ls) ↔ c ≠ ' ' := by
  have hfind : (List.replicate k [] ++ (c :: l) :: ls).find? (fun l => !l.isEmpty) =
      some (c :: l) := by
    rw [List.find?_append, List.find?_eq_none.2 fun x hx => by simp [List.eq_of_mem_replicate hx]]
    simp
  constructor
  · intro h hc
    exact h _ hfind (congrArg some hc)
  · rintro hc l' hl' hhead
    cases hfind.symm.trans hl'
    exact hc (Option.some.inj hhead)

theorem starts_append_nil : Starts (ls ++ [[]]) ↔ Starts ls := by
  have hfind : (ls ++ [[]]).find? (fun l => !l.isEmpty) = ls.find? (fun l => !l.isEmpty) := by
    rw [List.find?_append]
    exact Option.or_none
  rw [Starts, Starts, hfind]

/-- Lines written further to the right, the empty ones left as they are or not. -/
def Indented (m : Nat) (body : List Line) : Prop := ∀ b ∈ body, b = [] ∨ ∃ l, b = pad m ++ l

section
variable {parent : Nat} {body : List Line}

theorem Indented.blank (hb : Indented m body) {b : Line} (hm : b ∈ body) (hd : b.drop m = []) :
    isBlank b = true ∧ b.length ≤ m := by
  rcases hb b hm with rfl | ⟨l, rfl⟩
  · simp [isBlank]
  · rw [drop_pad] at hd
    subst hd
    simp [isBlank, pad]

theorem Indented.shown (hb : Indented m body) {b : Line} (hm : b ∈ body) {c : Char} {l : Line}
    (hd : b.drop m = c :: l) : b = pad m ++ c :: l := by
  rcases hb b hm with rfl | ⟨l', rfl⟩
  · rw [List.drop_nil] at hd
    cases hd
  · rw [drop_pad] at hd
    rw [hd]

theorem Indented.belongs (hb : Indented m body) {b : Line} (hm : b ∈ body) :
    belongs m b = true := by
  rcases hb b hm with rfl | ⟨l, rfl⟩
  · simp [YamlText.belongs, isBlank]
  · exact belongs_pad m l

theorem body_cases (m : Nat) (body : List Line) : (∀ b ∈ body, b.drop m = []) ∨
    ∃ bs b more c l, body = bs ++ b :: more ∧ (∀ b ∈ bs, b.drop m = []) ∧ b.drop m = c :: l := by
  induction body with
  | nil => exact .inl fun b hb => absurd hb List.not_mem_nil
  | cons b body ih =>
    cases hd : b.drop m with
    | cons c l => exact .inr ⟨[], b, body, c, l, rfl, fun b hb => absurd hb List.not_mem_nil, hd⟩
    | nil =>
      rcases ih with ih | ⟨bs, b', more, c, l, rfl, hbs, hb'⟩
      · exact .inl (List.forall_mem_cons.2 ⟨hd, ih⟩)
      · exact .inr ⟨b :: bs, b', more, c, l, rfl, List.forall_mem_cons.2 ⟨hd, hbs⟩, hb'⟩

theorem map_drop_nil {bs : List Line} (h : ∀ b ∈ bs, b.drop m = []) :
    bs.map (List.drop m) = List.replicate bs.length [] :=
  List.map_eq_replicate_iff.2 h

/-- Where its first line with anything on it does not start with a space, an indented text is the
literal scalar of its lines. -/
theorem literal_indented (hm : parent < m) (hb : Indented m body)
    (hs : Starts (body.map (List.drop m))) :
    Literal parent body (clip (body.map (List.drop m))) := by
  rcases body_cases m body with hnil | ⟨bs, b, more, c, l, rfl, hbs, hd⟩
  · rw [map_drop_nil hnil, clip_empty]
    exact .blank fun l hl => (hb.blank hl (hnil l hl)).1
  · have hblanks : ∀ x ∈ bs, isBlank x = true ∧ x.length ≤ m := fun x hx =>
      hb.blank (List.mem_append_left _ hx) (hbs x hx)
    have hfirst : b = pad m ++ c :: l := hb.shown (by simp) hd
    have hc : c ≠ ' ' := by
      rw [List.map_append, List.map_cons, map_drop_nil hbs, hd] at hs
      exact (starts_iff _ c l _).1 hs
    have hindent : indentation b = m := by
      rw [hfirst, indentation_pad, indentation, List.takeWhile_cons_of_neg (by simpa using hc)]
      rfl
    have hblank : isBlank b = false := by
      rw [hfirst, isBlank_pad]
      simp [isBlank, hc]
    have hshown : Literal parent (bs ++ b :: more)
        (clip ((bs ++ b :: more).map (List.drop (indentation b)))) :=
      .shown (fun x hx => (hblanks x hx).1) (fun x hx => hindent.symm ▸ (hblanks x hx).2) hblank
        (hindent.symm ▸ hm) fun x hx => hindent.symm ▸ hb.belongs (by simp [hx])
    rwa [hindent] at hshown

end

theorem unindented_clip {ls : List Line} (hlines : ∀ l ∈ ls, '\n' ∉ l) :
    Unindented (clip ls) ↔ Starts ls := by
  rcases lines_cases ls with ⟨k, rfl⟩ | ⟨k, c, l, ls, rfl⟩
  · rw [clip_empty]
    refine ⟨fun _ l hl => ?_, fun _ => nofun⟩
    have hshown := List.find?_some hl
    rw [List.eq_of_mem_replicate (List.mem_of_find?_eq_some hl)] at hshown
    cases hshown
  · obtain ⟨t, ht⟩ := clip_shown k c l ls
    have hc : c ≠ '\n' := fun h => hlines (c :: l) (by simp) (h ▸ List.mem_cons_self)
    rw [starts_iff, Unindented, ht, List.dropWhile_append_of_pos (by simp),
      List.dropWhile_cons_of_neg (by simpa using hc), List.head?_cons]
    exact not_congr Option.some_inj

end

end YamlText
