import GrillPlatform.Hcl.File

/-! The lines a program writes into a file of values, and when each of them is read back. -/

namespace Hcl
variable {lenient : Bool} {name pad delim : List Char}

/-- A name, blanks, and the sign of an assignment. -/
def assign (name pad cs : List Char) : List Char := name ++ (pad ++ '=' :: ' ' :: cs)

structure IsName (name : List Char) : Prop where
  starts : ∃ c cs, name = c :: cs ∧ startsIdentifier c = true
  all : ∀ c ∈ name, isIdentifier c = true

theorem IsName.not_mem (h : IsName name) {c : Char} (hc : isIdentifier c = false) : c ∉ name := by
  intro hm
  rw [h.all c hm] at hc
  cases hc

theorem takeWhile_stop {p : Char → Bool} {u : List Char} {c : Char} {v : List Char}
    (hu : ∀ a ∈ u, p a = true) (hc : p c = false) : (u ++ c :: v).takeWhile p = u := by
  rw [List.takeWhile_append_of_pos hu, List.takeWhile_cons_of_neg (by simp [hc]), List.append_nil]

theorem dropWhile_stop {p : Char → Bool} {u : List Char} {c : Char} {v : List Char}
    (hu : ∀ a ∈ u, p a = true) (hc : p c = false) : (u ++ c :: v).dropWhile p = c :: v := by
  rw [List.dropWhile_append_of_pos hu, List.dropWhile_cons_of_neg (by simp [hc])]

theorem identifier_stop (h : IsName name) {c : Char} (hc : isIdentifier c = false)
    (cs : List Char) :
    identifier (name ++ c :: cs) = some (name, c :: cs) := by
  obtain ⟨d, ds, rfl, hd⟩ := h.starts
  have hnext := takeWhile_stop (v := cs) h.all hc
  have hrest := dropWhile_stop (v := cs) h.all hc
  rw [List.cons_append] at hnext hrest ⊢
  simp only [identifier, hd, if_true, hnext, hrest]

theorem assignment_assign (hname : IsName name) (hpad : ∀ c ∈ pad, isSpacing c = true) {c : Char}
    (hc : isSpacing c = false) (cs : List Char) :
    assignment lenient (assign name pad (c :: cs)) = (expression lenient (c :: cs)).bind fun q =>
      (lineEnd q.2).map fun rest => (⟨name, q.1⟩, rest) := by
  have hid :
      identifier (assign name pad (c :: cs)) = some (name, pad ++ '=' :: ' ' :: c :: cs) := by
    cases pad with
    | nil => exact identifier_stop hname (by decide) _
    | cons d pad =>
      refine identifier_stop hname ?_ _
      have hd := hpad d List.mem_cons_self
      simp only [isSpacing, decide_eq_true_eq] at hd
      rcases hd with rfl | rfl <;> decide
  have heq : skipSpacing (pad ++ '=' :: ' ' :: c :: cs) = '=' :: ' ' :: c :: cs :=
    dropWhile_stop hpad (by decide)
  have hval : skipSpacing (' ' :: c :: cs) = c :: cs :=
    dropWhile_stop (u := [' ']) (by simp [isSpacing]) hc
  rw [assignment, hid]
  simp only [Option.bind_eq_bind, Option.bind_some, heq, hval]
  cases expression lenient (c :: cs) with
  | none => rfl
  | some q =>
    simp only [Option.bind_some]
    cases lineEnd q.2 <;> rfl

theorem starts_assign (hname : IsName name) (cs : List Char) :
    ∃ c cs', assign name pad cs = c :: cs' ∧ startsIdentifier c = true := by
  obtain ⟨c, ds, rfl, hc⟩ := hname.starts
  exact ⟨c, _, rfl, hc⟩

theorem assign_append (cs rest : List Char) :
    assign name pad cs ++ rest = assign name pad (cs ++ rest) := by simp [assign]

def quotedLine (name pad s : List Char) : Line where
  text := assign name pad ('"' :: (s ++ ['"', '\n']))
  assigns := ⟨name, .str s⟩
  good := Verbatim s

theorem quotedLine_exact (hname : IsName name) (hpad : ∀ c ∈ pad, isSpacing c = true)
    (s : List Char) : (quotedLine name pad s).Exact lenient where
  starts := starts_assign hname _
  reads h rest := by
    rw [quotedLine, assign_append, List.cons_append, assignment_assign hname hpad (by decide)]
    simp [expression, quoted_verbatim h]
    rfl
  only rest r h := by
    rw [quotedLine, assign_append, List.cons_append, assignment_assign hname hpad (by decide)] at h
    obtain ⟨q, hq, h⟩ := Option.bind_eq_some_iff.1 h
    obtain ⟨rest', -, h⟩ := Option.map_eq_some_iff.1 h
    obtain ⟨⟨v, r'⟩, hv, rfl⟩ := Option.map_eq_some_iff.1 hq
    cases h
    rw [List.append_assoc] at hv
    exact verbatim_of_quoted rfl hv

def quotedItem (x : List Char) : List Char := '"' :: (x ++ ['"'])

def listText (xs : List (List Char)) : List Char := [',', ' '].intercalate (xs.map quotedItem)

def listLine (name pad : List Char) (xs : List (List Char)) : Line where
  text := assign name pad ('[' :: (listText xs ++ [']', '\n']))
  assigns := ⟨name, .list xs⟩
  good := True

theorem listText_cons (x : List Char) {xs : List (List Char)} (h : xs ≠ []) :
    listText (x :: xs) = quotedItem x ++ ',' :: ' ' :: listText xs := by
  obtain ⟨y, ys, rfl⟩ := List.exists_cons_of_ne_nil h
  simp [listText, List.intercalate_cons_cons]

theorem listText_singleton (x : List Char) : listText [x] = quotedItem x := by
  simp [listText]

theorem items_space (fuel : Nat) (cs : List Char) : items fuel (' ' :: cs) = items fuel cs := by
  cases fuel <;> rfl

theorem items_last {x : List Char} (hx : Verbatim x) (fuel : Nat) (rest : List Char) :
    items (fuel + 1) (quotedItem x ++ ']' :: rest) = some ([x], rest) := by
  have hq : quoted (x ++ (['"'] ++ ']' :: rest)) = some (x, ']' :: rest) := quoted_verbatim hx
  have hskip : skipSpace ('"' :: (x ++ (['"'] ++ ']' :: rest))) =
    '"' :: (x ++ (['"'] ++ ']' :: rest)) := rfl
  rw [quotedItem, List.cons_append, List.append_assoc, items, hskip]
  simp only [hq, Option.bind_eq_bind, Option.bind_some]
  rfl

theorem items_next {x : List Char} (hx : Verbatim x) (fuel : Nat) (cs : List Char) :
    items (fuel + 1) (quotedItem x ++ ',' :: cs) =
      (items fuel cs).map fun q => (x :: q.1, q.2) := by
  have hq : quoted (x ++ (['"'] ++ ',' :: cs)) = some (x, ',' :: cs) := quoted_verbatim hx
  have hskip : skipSpace ('"' :: (x ++ (['"'] ++ ',' :: cs))) =
    '"' :: (x ++ (['"'] ++ ',' :: cs)) := rfl
  rw [quotedItem, List.cons_append, List.append_assoc, items, hskip]
  simp only [hq, Option.bind_eq_bind, Option.bind_some]
  rfl

theorem items_list {xs : List (List Char)} (h : ∀ x ∈ xs, Verbatim x) {fuel : Nat}
    (hfuel : xs.length < fuel) (rest : List Char) :
    items fuel (listText xs ++ ']' :: rest) = some (xs, rest) := by
  induction xs generalizing fuel with
  | nil =>
    obtain ⟨fuel, rfl⟩ := Nat.exists_eq_add_of_lt hfuel
    rfl
  | cons x xs ih =>
    obtain ⟨fuel, rfl⟩ := Nat.exists_eq_add_of_lt (Nat.zero_lt_of_lt hfuel)
    rw [Nat.zero_add]
    have hx := h x List.mem_cons_self
    by_cases hxs : xs = []
    · subst hxs
      rw [listText_singleton, items_last hx]
    · have hrest : items fuel (listText xs ++ ']' :: rest) = some (xs, rest) :=
        ih (fun y hy => h y (List.mem_cons_of_mem x hy)) (by rw [List.length_cons] at hfuel; omega)
      rw [listText_cons x hxs, List.append_assoc, List.cons_append, items_next hx,
        List.cons_append, items_space, hrest]
      rfl

theorem length_listText (xs : List (List Char)) : xs.length ≤ (listText xs).length := by
  induction xs with
  | nil => exact Nat.zero_le _
  | cons x xs ih =>
    by_cases hxs : xs = []
    · subst hxs
      rw [listText_singleton]
      simp [quotedItem]
    · rw [listText_cons x hxs]
      simp
      omega

theorem listLine_exact (hname : IsName name) (hpad : ∀ c ∈ pad, isSpacing c = true)
    {xs : List (List Char)} (hxs : ∀ x ∈ xs, Verbatim x) : (listLine name pad xs).Exact
    lenient where
  starts := starts_assign hname _
  reads _ rest := by
    have hlen := length_listText xs
    have hitems : expression lenient ('[' :: (listText xs ++ ']' :: '\n' :: rest)) =
        some (.list xs, '\n' :: rest) := by
      rw [expression, items_list hxs (by rw [List.length_append]; omega)]
      rfl
    rw [listLine, assign_append, List.cons_append, List.append_assoc,
      assignment_assign hname hpad (by decide)]
    simp only [List.cons_append, List.nil_append, hitems]
    rfl
  only _ _ _ := trivial

def numberLine (name pad : List Char) (n : Int) : Line where
  text := assign name pad ((toString n).toList ++ ['\n'])
  assigns := ⟨name, .num n⟩
  good := True

theorem digits_toDigits (n : Nat) (rest : List Char) :
    digits (Nat.toDigits 10 n ++ '\n' :: rest) = some (n, '\n' :: rest) := by
  have hdigit : ∀ c ∈ Nat.toDigits 10 n, c.isDigit = true := fun c hc =>
    Nat.isDigit_of_mem_toDigits (by decide) (by decide) hc
  rw [digits, takeWhile_stop hdigit (by decide), dropWhile_stop hdigit (by decide),
    Nat.ofDigitChars_ten_toDigits]
  exact if_neg Nat.toDigits_ne_nil

theorem expression_number {c : Char} (hc : c ∉ ['"', '[', '<']) (cs : List Char) :
    expression lenient (c :: cs) = (number (c :: cs)).map fun q => (.num q.1, q.2) := by
  simp only [List.mem_cons, List.not_mem_nil, or_false, not_or] at hc
  rw [expression]
  · exact fun cs' h => hc.1 (List.cons.inj h).1
  · exact fun cs' h => hc.2.1 (List.cons.inj h).1
  · exact fun cs' h => hc.2.2 (List.cons.inj h).1

theorem number_digit {c : Char} (hc : c ≠ '-') (cs : List Char) :
    number (c :: cs) = (digits (c :: cs)).map fun q => ((q.1 : Int), q.2) := by
  rw [number]
  exact fun cs' h => hc (List.cons.inj h).1

theorem digit_ne {c d : Char} (hc : c.isDigit = true) (hd : d.isDigit = false) : c ≠ d := by
  rintro rfl
  rw [hc] at hd
  cases hd

theorem toString_starts (n : Int) : ∃ c cs, (toString n).toList = c :: cs ∧
    isSpacing c = false ∧ ∀ rest, expression lenient (c :: cs ++ '\n' :: rest) =
      some (.num n, '\n' :: rest) := by
  cases n with
  | ofNat n =>
    have htext : (toString (Int.ofNat n)).toList = Nat.toDigits 10 n := Nat.toList_repr
    obtain ⟨c, cs, hn⟩ := List.exists_cons_of_ne_nil (Nat.toDigits_ne_nil (n := n) (b := 10))
    have hc : c.isDigit = true :=
      Nat.isDigit_of_mem_toDigits (b := 10) (n := n) (by decide) (by decide)
        (hn ▸ List.mem_cons_self)
    refine ⟨c, cs, htext.trans hn, ?_, fun rest => ?_⟩
    · simp [isSpacing, digit_ne hc]
    · have hds := digits_toDigits n rest
      rw [hn] at hds
      rw [List.cons_append, expression_number (by simp [digit_ne hc]),
        number_digit (digit_ne hc (by decide)), ← List.cons_append, hds]
      rfl
  | negSucc n =>
    have htext : (toString (Int.negSucc n)).toList = '-' :: Nat.toDigits 10 (n + 1) := by
      rw [Int.toString_eq_repr, Int.repr_eq_if, if_neg (by omega), String.toList_append,
        Nat.toList_repr]
      rfl
    refine ⟨'-', _, htext, by decide, fun rest => ?_⟩
    rw [List.cons_append, expression_number (by decide), number, digits_toDigits]
    rfl

theorem numberLine_exact (hname : IsName name) (hpad : ∀ c ∈ pad, isSpacing c = true) (n : Int) :
    (numberLine name pad n).Exact lenient where
  starts := starts_assign hname _
  reads _ rest := by
    obtain ⟨c, cs, hn, hc, hread⟩ := @toString_starts lenient n
    rw [numberLine, assign_append, List.append_assoc, hn, List.cons_append,
      assignment_assign hname hpad hc, ← List.cons_append, List.singleton_append, hread]
    rfl
  only _ _ _ := trivial

def heredocLine (lenient : Bool) (name pad delim t : List Char) : Line where
  text := assign name pad
    ('<' :: '<' :: (delim ++ '\n' :: (escape t ++ '\n' :: (delim ++ ['\n']))))
  assigns := ⟨name, .str (t ++ ['\n'])⟩
  good := ∀ l ∈ t.splitOn '\n', closes lenient delim l = false

theorem expression_heredoc (hdelim : IsName delim) (cs : List Char) :
    expression lenient ('<' :: '<' :: (delim ++ '\n' :: cs)) =
      (heredoc (closes lenient delim) cs).map fun q => (.str q.1, '\n' :: q.2) := by
  rw [expression, identifier_stop hdelim (by decide)]
  rfl

theorem isBlank_of_isIdentifier {c : Char} (h : isIdentifier c = true) : isBlank c = false := by
  simp only [isIdentifier] at h
  delta Char.isAlphanum Char.isAlpha Char.isUpper Char.isLower Char.isDigit at h
  simp only [Bool.or_eq_true, Bool.and_eq_true, decide_eq_true_eq, UInt32.le_iff_toNat_le] at h
  have hc : c.val.toNat = c.toNat := rfl
  apply decide_eq_false
  simp only [List.mem_cons, List.not_mem_nil, or_false]
  rcases h with h | rfl | rfl
  · simp at h
    omega
  · decide
  · decide

theorem trimBlanks_eq_self {line : List Char} (h : ∀ c ∈ line, isBlank c = false) :
    trimBlanks line = line := by
  have hdrop : ∀ l : List Char, (∀ c ∈ l, isBlank c = false) → l.dropWhile isBlank = l := by
    intro l hl
    cases l with
    | nil => rfl
    | cons c l => rw [List.dropWhile_cons_of_neg (by simp [hl c List.mem_cons_self])]
  rw [trimBlanks, hdrop line h, hdrop _ fun c hc => h c (List.mem_reverse.1 hc),
    List.reverse_reverse]

theorem closes_self (h : IsName delim) : closes lenient delim delim = true := by
  have htrim := trimBlanks_eq_self fun c hc => isBlank_of_isIdentifier (h.all c hc)
  cases lenient <;> simp [closes, htrim]

theorem heredocLine_exact (hname : IsName name) (hpad : ∀ c ∈ pad, isSpacing c = true)
    (hdelim : IsName delim) (t : List Char) :
    (heredocLine lenient name pad delim t).Exact lenient where
  starts := starts_assign hname _
  reads h rest := by
    have hbody := @heredoc_escape _ _ rest (closes_escape (hdelim.not_mem (by decide)))
      (closes_self hdelim) (hdelim.not_mem (by decide)) t h
    rw [heredocLine, assign_append, List.cons_append, assignment_assign hname hpad (by decide)]
    simp only [List.cons_append, List.append_assoc, List.nil_append, expression_heredoc hdelim,
      hbody]
    rfl
  only rest r h := by
    rw [heredocLine, assign_append, List.cons_append, assignment_assign hname hpad (by decide)] at h
    simp only [List.cons_append, List.append_assoc, List.nil_append,
      expression_heredoc hdelim] at h
    obtain ⟨q, hq, h⟩ := Option.bind_eq_some_iff.1 h
    obtain ⟨rest', -, h⟩ := Option.map_eq_some_iff.1 h
    obtain ⟨⟨v, r'⟩, hv, rfl⟩ := Option.map_eq_some_iff.1 hq
    cases h
    exact not_ends_of_heredoc (closes_escape (hdelim.not_mem (by decide))) hv

end Hcl
