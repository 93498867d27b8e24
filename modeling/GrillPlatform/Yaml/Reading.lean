import GrillPlatform.Yaml.Scalars

/-! A reader of scalars that keeps the rules of YAML. -/

namespace YamlText

/-- The lines of a document whose only line break is the line feed. -/
def documentLines (cs : List Char) : Option (List Line) :=
  if cs.all fun c => isPrintable c ∨ c = '\n' then some (cs.splitOn '\n') else none

/-- A scalar on one line; an escape or a quote inside quotes is not read. -/
def scalar (l : Line) : Option (List Char) :=
  match l with
  | [] => none
  | c :: q =>
    if c = '"' ∨ c = '\'' then
      if q.getLast? = some c ∧ c ∉ q.dropLast ∧ (c = '\'' ∨ '\\' ∉ q) then some q.dropLast
      else none
    else if IsPlain l then some l else none

/-- The literal scalar that starts here under a key in column `parent`, and the lines after it. -/
def literal (parent : Nat) (ls : List Line) : Option (List Char × List Line) :=
  match ls.find? fun l => !isBlank l with
  | none => some ([], [])
  | some first =>
    let m := indentation first
    if m ≤ parent then some ([], ls.dropWhile isBlank)
    else if (ls.takeWhile isBlank).any fun l => m < l.length then none
    else
      match ls.dropWhile (belongs m) with
      | [] => some (clip (ls.map (List.drop m)), [])
      | l :: rest =>
        if parent < indentation l then none
        else some (clip ((ls.takeWhile (belongs m)).map (List.drop m)), l :: rest)

section
variable {parent m : Nat} {t : List Char}

theorem documentLines_of_printable {cs : List Char} (h : ∀ l ∈ cs.splitOn '\n', Printable l) :
    documentLines cs = some (cs.splitOn '\n') := by
  refine if_pos (List.all_eq_true.2 fun c hc => decide_eq_true ?_)
  have hmem : c ∈ (cs.splitOn '\n').flatMap (· ++ ['\n']) := by
    rw [flatMap_splitOn]
    exact List.mem_append_left _ hc
  obtain ⟨l, hl, hcl⟩ := List.mem_flatMap.1 hmem
  rcases List.mem_append.1 hcl with hcl | hcl
  · exact .inl (h l hl c hcl)
  · exact .inr (List.mem_singleton.1 hcl)

theorem scalar_quoted {m : Char} (hm : m = '"' ∨ m = '\'') (h : m ∉ t)
    (hb : m = '\'' ∨ '\\' ∉ t) : scalar (m :: (t ++ [m])) = some t := by
  have hslash : m = '\'' ∨ '\\' ∉ t ++ [m] := by
    rcases hm with rfl | rfl
    · simpa using hb
    · exact .inl rfl
  rw [scalar, if_pos hm, if_pos ⟨by simp, by simpa using h, hslash⟩]
  simp

theorem scalar_plain (h : IsPlain t) : scalar t = some t := by
  obtain ⟨c, hc, hfirst⟩ := h.1
  obtain ⟨t, rfl⟩ : ∃ u, t = c :: u := List.head?_eq_some_iff.1 hc
  have hquote : ¬ (c = '"' ∨ c = '\'') := by
    rintro (rfl | rfl) <;> exact absurd hfirst (by decide)
  rw [scalar, if_neg hquote, if_pos h]

theorem Scalar.read {l : Line} (h : Scalar l t) : scalar l = some t := by
  cases h with
  | plain h => exact scalar_plain h
  | single h => exact scalar_quoted (.inr rfl) h (.inl rfl)
  | double h => exact scalar_quoted (.inl rfl) h.1 (.inr h.2)

/-! ## Literal scalars -/

/-- What comes after a scalar: empty lines and a line further to the left. -/
structure Dedents (parent : Nat) (tail : List Line) (next : Line) (rest : List Line) : Prop where
  lines : ∃ k, tail = List.replicate k [] ++ next :: rest
  shown : isBlank next = false
  left : indentation next ≤ parent

section
variable {parent : Nat} {blanks more rest : List Line} {first next : Line}

theorem find_shown (hb : ∀ l ∈ blanks, isBlank l = true) (hf : isBlank first = false) :
    (blanks ++ first :: more).find? (fun l => !isBlank l) = some first := by
  rw [List.find?_append, List.find?_eq_none.2 fun l hl => by simp [hb l hl]]
  simp [hf]

theorem drop_blanks (hb : ∀ l ∈ blanks, isBlank l = true) (hf : isBlank first = false) :
    (blanks ++ first :: more).takeWhile isBlank = blanks ∧
      (blanks ++ first :: more).dropWhile isBlank = first :: more := by
  constructor
  · rw [List.takeWhile_append_of_pos hb, List.takeWhile_cons_of_neg (by simp [hf]), List.append_nil]
  · rw [List.dropWhile_append_of_pos hb, List.dropWhile_cons_of_neg (by simp [hf])]

theorem literal_empty (hb : ∀ l ∈ blanks, isBlank l = true) (hn : isBlank next = false)
    (hleft : indentation next ≤ parent) :
    literal parent (blanks ++ next :: rest) = some ([], next :: rest) := by
  rw [literal, find_shown hb hn]
  dsimp only
  rw [if_pos hleft, (drop_blanks hb hn).2]

variable (rest) in
theorem literal_shown (hb : ∀ l ∈ blanks, isBlank l = true) (hf : isBlank first = false)
    (hlen : ∀ l ∈ blanks, l.length ≤ indentation first) (hm : parent < indentation first)
    (hmore : ∀ l ∈ more, belongs (indentation first) l = true) (hn : isBlank next = false)
    (hleft : indentation next ≤ parent) :
    literal parent (blanks ++ first :: (more ++ next :: rest)) =
      some (clip ((blanks ++ first :: more).map (List.drop (indentation first))),
        next :: rest) := by
  have hshort : (blanks.any fun l => indentation first < l.length) = false := by
    simpa using hlen
  have hall : ∀ l ∈ blanks ++ first :: more, belongs (indentation first) l = true := by
    intro l hl
    rcases List.mem_append.1 hl with hl | hl
    · simp [belongs, hb l hl]
    · rcases List.mem_cons.1 hl with rfl | hl
      · simp [belongs]
      · exact hmore l hl
  have hstop : belongs (indentation first) next = false := by
    simp [belongs, hn, Nat.lt_of_le_of_lt hleft hm]
  have hsplit : blanks ++ first :: (more ++ next :: rest) =
      (blanks ++ first :: more) ++ next :: rest := by simp
  have hrest : (blanks ++ first :: (more ++ next :: rest)).dropWhile
      (belongs (indentation first)) = next :: rest := by
    rw [hsplit, List.dropWhile_append_of_pos hall, List.dropWhile_cons_of_neg (by simp [hstop])]
  have htext : (blanks ++ first :: (more ++ next :: rest)).takeWhile
      (belongs (indentation first)) = blanks ++ first :: more := by
    rw [hsplit, List.takeWhile_append_of_pos hall, List.takeWhile_cons_of_neg (by simp [hstop]),
      List.append_nil]
  rw [literal, find_shown hb hf]
  dsimp only
  rw [if_neg (Nat.not_le.2 hm), (drop_blanks hb hf).1, hshort, if_neg (by simp), hrest]
  dsimp only
  rw [if_neg (Nat.not_lt.2 hleft), htext]

end


theorem Literal.read {body tail rest : List Line} {next : Line} (h : Literal parent body t)
    (ht : Dedents parent tail next rest) :
    literal parent (body ++ tail) = some (t, next :: rest) := by
  obtain ⟨⟨j, rfl⟩, hshown, hleft⟩ := ht
  have hempty : ∀ l ∈ List.replicate j ([] : Line), isBlank l = true := by
    intro l hl
    rw [List.eq_of_mem_replicate hl]
    rfl
  cases h with
  | blank h =>
    rw [← List.append_assoc]
    exact literal_empty (List.forall_mem_append.2 ⟨h, hempty⟩) hshown hleft
  | @shown blanks more first hb hlen hf hm hmore =>
    have hmore' : ∀ l ∈ more ++ List.replicate j [], belongs (indentation first) l = true :=
      List.forall_mem_append.2 ⟨hmore, fun l hl => by simp [belongs, hempty l hl]⟩
    have hread := literal_shown rest hb hf hlen hm hmore' hshown hleft
    have hdoc : blanks ++ first :: more ++ (List.replicate j [] ++ next :: rest) =
        blanks ++ first :: ((more ++ List.replicate j []) ++ next :: rest) := by simp
    have htext : (blanks ++ first :: (more ++ List.replicate j [])).map
        (List.drop (indentation first)) =
        (blanks ++ first :: more).map (List.drop (indentation first)) ++ List.replicate j [] := by
      simp
    rw [hdoc, hread, htext, clip_append_empty]

theorem drop_indentation {l : Line} (hl : isBlank l = false) :
    ∃ c t, l.drop (indentation l) = c :: t ∧ c ≠ ' ' := by
  obtain ⟨x, hx, hne⟩ := List.all_eq_false.1 hl
  have hdrop : l.drop (indentation l) = l.dropWhile (· = ' ') := by
    have hsplit := List.takeWhile_append_dropWhile (p := (· = ' ')) (l := l)
    calc l.drop (indentation l)
        = (l.takeWhile (· = ' ') ++ l.dropWhile (· = ' ')).drop (indentation l) := by rw [hsplit]
      _ = l.dropWhile (· = ' ') := List.drop_left
  cases hrest : l.dropWhile (· = ' ') with
  | nil => exact absurd (List.dropWhile_eq_nil_iff.1 hrest x hx) hne
  | cons c t =>
    have hc : c ≠ ' ' := by
      have hhead := List.head_dropWhile_not (· = ' ') (l := l) (by simp [hrest])
      simpa [hrest] using hhead
    exact ⟨c, t, hdrop.trans hrest, hc⟩

theorem literal_unindented {ls rest : List Line} (hlines : ∀ l ∈ ls, '\n' ∉ l)
    (h : literal parent ls = some (t, rest)) : Unindented t := by
  rw [literal] at h
  split at h
  · cases h
    nofun
  next first hfirst =>
    obtain ⟨hf, blanks, more, rfl, hblanks⟩ := List.find?_eq_some_iff_append.1 hfirst
    replace hf : isBlank first = false := by simpa using hf
    replace hblanks : ∀ l ∈ blanks, isBlank l = true := fun l hl => by simpa using hblanks l hl
    dsimp only at h
    split at h
    · cases h
      nofun
    rw [(drop_blanks hblanks hf).1] at h
    split at h
    · cases h
    next hshort =>
      have hnil : ∀ l ∈ blanks, l.drop (indentation first) = [] := by
        simpa using hshort
      obtain ⟨c, t', hdrop, hc⟩ := drop_indentation hf
      have hshow : ∀ more', (∀ l ∈ blanks ++ first :: more', '\n' ∉ l) →
          Unindented (clip ((blanks ++ first :: more').map (List.drop (indentation first)))) := by
        intro more' hno
        have hno' : ∀ l ∈ (blanks ++ first :: more').map (List.drop (indentation first)),
            '\n' ∉ l :=
          List.forall_mem_map.2 fun l hl hn => hno l hl (List.mem_of_mem_drop hn)
        refine (unindented_clip hno').2 ?_
        rw [List.map_append, List.map_cons, map_drop_nil hnil, hdrop]
        exact (starts_iff _ c t' _).2 hc
      have hbelongs : ∀ l ∈ blanks ++ [first], belongs (indentation first) l = true := by
        intro l hl
        rcases List.mem_append.1 hl with hl | hl
        · simp [belongs, hblanks l hl]
        · simp [List.mem_singleton.1 hl, belongs]
      have htake : (blanks ++ first :: more).takeWhile (belongs (indentation first)) =
          blanks ++ first :: more.takeWhile (belongs (indentation first)) := by
        rw [List.append_cons, List.takeWhile_append_of_pos hbelongs, List.append_assoc]
        rfl
      split at h
      · cases h
        exact hshow more hlines
      split at h
      · cases h
      · cases h
        rw [htake]
        refine hshow _ fun l hl => hlines l ?_
        rw [← htake] at hl
        exact (List.takeWhile_sublist _).subset hl

end

end YamlText
