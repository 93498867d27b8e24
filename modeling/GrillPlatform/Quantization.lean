import GrillPlatform.Catalog
import GrillPlatform.Text.Leftmost
import Mathlib.Data.List.TakeWhile

/-! The tag of a GGUF file: what the pattern finds in the stem of the file is the leftmost longest
text of the tag language. -/

namespace GrillPlatform
open Text

/-- The language of the pattern. -/
inductive IsTag (u : Unicode) : List Char → Prop
  | iq {letters digits suffix : List Char} (hletters : letters.map foldCase = "iq".toList)
      (hne : digits ≠ []) (hdigits : ∀ c ∈ digits, isDecimal c = true)
      (hsuffix : ∀ c ∈ suffix, u.isWord c = true) : IsTag u (letters ++ (digits ++ suffix))
  | q {letters digits : List Char} {groups : List (List Char)}
      (hletters : letters.map foldCase = "q".toList) (hne : digits ≠ [])
      (hdigits : ∀ c ∈ digits, isDecimal c = true)
      (hgroups : ∀ g ∈ groups, g ≠ [] ∧ ∀ c ∈ g, isTagChar c = true) :
      IsTag u (letters ++ (digits ++ groups.flatMap ('_' :: ·)))
  | word {text : List Char}
      (h : text.map foldCase ∈ ["bf16".toList, "f16".toList, "f32".toList]) : IsTag u text

/-- What a file is to show of its tag. -/
structure Tagged (u : Unicode) (ggufFile tag : String) : Prop where
  quantization : quantization u (some ggufFile) = some (u.upper tag)
  categories (entry : ModelEntry) : entry.ggufFile = some ggufFile →
    "Quantized" ∈ categories u entry

section
variable {c : Char} {g l : List Char} {groups : List (List Char)}

theorem tagGroups_cons (hc : isTagChar c = true) : tagGroups (c :: l) = c :: tagGroups l := by
  have hne : c ≠ '_' := fun h => absurd hc (by rw [h]; decide)
  rw [tagGroups.eq_2 c l fun d cs h _ => hne h, if_pos hc]

theorem tagGroups_append (hg : ∀ c ∈ g, isTagChar c = true) :
    tagGroups (g ++ l) = g ++ tagGroups l := by
  induction g with
  | nil => rfl
  | cons c g ih =>
    rw [List.cons_append, tagGroups_cons (hg c List.mem_cons_self),
      ih fun d hd => hg d (List.mem_cons_of_mem c hd), List.cons_append]

theorem tagGroups_group (hne : g ≠ []) (hg : ∀ c ∈ g, isTagChar c = true) :
    tagGroups ('_' :: g ++ l) = '_' :: g ++ tagGroups l := by
  cases g with
  | nil => exact absurd rfl hne
  | cons c g =>
    rw [List.cons_append, List.cons_append, tagGroups, if_pos (hg c List.mem_cons_self),
      tagGroups_append fun d hd => hg d (List.mem_cons_of_mem c hd)]
    rfl

theorem tagGroups_flatMap (hgroups : ∀ g ∈ groups, g ≠ [] ∧ ∀ c ∈ g, isTagChar c = true) :
    tagGroups (groups.flatMap ('_' :: ·) ++ l) = groups.flatMap ('_' :: ·) ++ tagGroups l := by
  induction groups with
  | nil => rfl
  | cons g groups ih =>
    obtain ⟨hne, hg⟩ := hgroups g List.mem_cons_self
    rw [List.flatMap_cons, List.append_assoc, tagGroups_group hne hg,
      ih fun g' hg' => hgroups g' (List.mem_cons_of_mem g hg'), List.append_assoc]

theorem exists_groups (l : List Char) : tagGroups l <+: l ∧
    ∃ (g : List Char) (groups : List (List Char)), tagGroups l = g ++ groups.flatMap ('_' :: ·) ∧
      (∀ c ∈ g, isTagChar c = true) ∧ ∀ g ∈ groups, g ≠ [] ∧ ∀ c ∈ g, isTagChar c = true := by
  induction l using tagGroups.induct with
  | case1 c l hc ih =>
    obtain ⟨hstart, g, groups, hread, hg, hgroups⟩ := ih
    rw [tagGroups, if_pos hc, hread]
    refine ⟨?_, [], (c :: g) :: groups, by simp, by simp, ?_⟩
    · rw [← hread]
      exact (List.prefix_append_right_inj ['_', c]).2 hstart
    · simpa [hc] using ⟨hg, hgroups⟩
  | case2 c l hc =>
    rw [tagGroups, if_neg hc]
    exact ⟨List.nil_prefix, [], [], rfl, by simp, by simp⟩
  | case3 c l _ hc ih =>
    obtain ⟨hstart, g, groups, hread, hg, hgroups⟩ := ih
    rw [tagGroups_cons hc, hread]
    refine ⟨?_, c :: g, groups, rfl, by simpa [hc] using hg, hgroups⟩
    rw [← hread]
    exact (List.prefix_append_right_inj [c]).2 hstart
  | case4 c l hnot hc =>
    rw [tagGroups.eq_2 c l hnot, if_neg hc]
    exact ⟨List.nil_prefix, [], [], rfl, by simp, by simp⟩
  | case5 => exact ⟨List.nil_prefix, [], [], rfl, by simp, by simp⟩

theorem tagSuffixes_eq (l : List Char) : tagSuffixes l = [] ∨
    ∃ c l', isTagChar c = true ∧ l = '_' :: c :: l' ∧ tagSuffixes l = '_' :: c :: tagGroups l' := by
  unfold tagSuffixes
  split
  · split
    · next h => exact .inr ⟨_, _, h, rfl, rfl⟩
    · exact .inl rfl
  · exact .inl rfl

theorem exists_suffixes (l : List Char) : tagSuffixes l <+: l ∧
    ∃ groups : List (List Char), tagSuffixes l = groups.flatMap ('_' :: ·) ∧
      ∀ g ∈ groups, g ≠ [] ∧ ∀ c ∈ g, isTagChar c = true := by
  rcases tagSuffixes_eq l with h | ⟨c, l', hc, rfl, h⟩
  · rw [h]
    exact ⟨List.nil_prefix, [], rfl, by simp⟩
  · obtain ⟨hstart, g, groups, hread, hg, hgroups⟩ := exists_groups l'
    rw [h]
    refine ⟨(List.prefix_append_right_inj ['_', c]).2 hstart, (c :: g) :: groups, ?_, ?_⟩
    · rw [hread]
      simp
    · simpa [hc] using ⟨hg, hgroups⟩

theorem tagSuffixes_flatMap (hgroups : ∀ g ∈ groups, g ≠ [] ∧ ∀ c ∈ g, isTagChar c = true) :
    groups.flatMap ('_' :: ·) <+: tagSuffixes (groups.flatMap ('_' :: ·) ++ l) := by
  cases groups with
  | nil => exact List.nil_prefix
  | cons g groups =>
    have hread := tagGroups_flatMap (l := l) hgroups
    obtain ⟨hne, hg⟩ := hgroups g List.mem_cons_self
    cases g with
    | nil => exact absurd rfl hne
    | cons c g =>
      have hsame : tagSuffixes (((c :: g) :: groups).flatMap ('_' :: ·) ++ l) =
          tagGroups (((c :: g) :: groups).flatMap ('_' :: ·) ++ l) := by
        simp only [List.flatMap_cons, List.cons_append, tagSuffixes, tagGroups]
      rw [hsame, hread]
      exact List.prefix_append _ _

end

/-! ## The pattern at a place -/

section
variable {u : Unicode} {p q : Char → Bool} {word : String}
  {text letters digits suffix rest found : List Char}

theorem startsWith_iff : startsWith word text = true ↔
    ∃ letters rest, text = letters ++ rest ∧ letters.map foldCase = word.toList := by
  rw [startsWith, List.isPrefixOf_iff_prefix]
  constructor
  · rintro ⟨more, hmore⟩
    obtain ⟨letters, rest, rfl, hletters, -⟩ := List.map_eq_append_iff.1 hmore.symm
    exact ⟨letters, rest, rfl, hletters⟩
  · rintro ⟨letters, rest, rfl, hletters⟩
    rw [List.map_append, hletters]
    exact List.prefix_append _ _

/-- What follows the letters of a tag: the digits, and what `suffixes` reads after them. -/
def numbered (letters rest : List Char) (suffixes : List Char → List Char) : Option (List Char) :=
  if rest.takeWhile isDecimal ≠ [] then
    some (letters ++ (rest.takeWhile isDecimal ++ suffixes (rest.dropWhile isDecimal)))
  else none

theorem numbered_eq_some {suffixes : List Char → List Char} :
    numbered letters rest suffixes = some found ↔ rest.takeWhile isDecimal ≠ [] ∧
      letters ++ (rest.takeWhile isDecimal ++ suffixes (rest.dropWhile isDecimal)) = found := by
  unfold numbered
  split
  · next h => simp [h]
  · next h => simp [h]

theorem numbered_prefix {suffixes : List Char → List Char} (hsuffixes : ∀ l, suffixes l <+: l)
    (h : numbered letters rest suffixes = some found) : found <+: letters ++ rest := by
  obtain ⟨-, rfl⟩ := numbered_eq_some.1 h
  rw [List.prefix_append_right_inj]
  calc rest.takeWhile isDecimal ++ suffixes (rest.dropWhile isDecimal)
      <+: rest.takeWhile isDecimal ++ rest.dropWhile isDecimal :=
        (List.prefix_append_right_inj _).2 (hsuffixes _)
    _ = rest := List.takeWhile_append_dropWhile

theorem numbered_greedy {suffixes : List Char → List Char} (hne : digits ≠ [])
    (hdigits : ∀ c ∈ digits, isDecimal c = true)
    (hsuffix : suffix <+: rest.takeWhile isDecimal ++ suffixes (rest.dropWhile isDecimal)) :
    ∃ found, numbered letters (digits ++ rest) suffixes = some found ∧
      letters ++ (digits ++ suffix) <+: found := by
  have htake : (digits ++ rest).takeWhile isDecimal = digits ++ rest.takeWhile isDecimal :=
    List.takeWhile_append_of_pos hdigits
  have hdrop : (digits ++ rest).dropWhile isDecimal = rest.dropWhile isDecimal :=
    List.dropWhile_append_of_pos hdigits
  refine ⟨_, numbered_eq_some.2 ⟨?_, rfl⟩, ?_⟩
  · rw [htake]
    exact List.append_ne_nil_of_left_ne_nil hne _
  · rw [htake, hdrop, List.append_assoc]
    exact (List.prefix_append_right_inj _).2 ((List.prefix_append_right_inj _).2 hsuffix)

theorem prefix_takeWhile (hq : ∀ c ∈ suffix, q c = true) :
    suffix <+: (suffix ++ rest).takeWhile p ++ ((suffix ++ rest).dropWhile p).takeWhile q := by
  induction suffix with
  | nil => exact List.nil_prefix
  | cons c suffix ih =>
    have ih := ih fun d hd => hq d (List.mem_cons_of_mem c hd)
    cases hp : p c with
    | true =>
      rw [List.cons_append, List.takeWhile_cons_of_pos hp, List.dropWhile_cons_of_pos hp]
      exact (List.prefix_append_right_inj [c]).2 ih
    | false =>
      have hp : ¬ p c = true := by simp [hp]
      rw [List.cons_append, List.takeWhile_cons_of_neg hp, List.dropWhile_cons_of_neg hp,
        ← List.cons_append, List.takeWhile_append_of_pos hq]
      exact List.prefix_append _ _

theorem drop_takeWhile (p : Char → Bool) (l : List Char) :
    l.drop (l.takeWhile p).length = l.dropWhile p :=
  calc l.drop (l.takeWhile p).length
      = (l.takeWhile p ++ l.dropWhile p).drop (l.takeWhile p).length := by
        rw [List.takeWhile_append_dropWhile]
    _ = l.dropWhile p := List.drop_left

theorem quantAt_iq (h : letters.map foldCase = "iq".toList) :
    quantAt u (letters ++ rest) = numbered letters rest (List.takeWhile u.isWord) := by
  obtain ⟨a, b, rfl⟩ : ∃ a b, letters = [a, b] :=
    List.length_eq_two.1 (by simpa using congrArg List.length h)
  obtain ⟨ha, hb⟩ : foldCase a = 'i' ∧ foldCase b = 'q' := by simpa using h
  have hdrop : ([a, b] ++ rest).drop (2 + (rest.takeWhile isDecimal).length) =
      rest.dropWhile isDecimal := by
    rw [← List.drop_drop]
    exact drop_takeWhile isDecimal rest
  simp only [List.cons_append, List.nil_append] at hdrop
  simp [quantAt, startsWith, numbered, ha, hb, hdrop]

theorem quantAt_q (h : letters.map foldCase = "q".toList) :
    quantAt u (letters ++ rest) = numbered letters rest tagSuffixes := by
  obtain ⟨a, rfl⟩ : ∃ a, letters = [a] :=
    List.length_eq_one_iff.1 (by simpa using congrArg List.length h)
  obtain ha : foldCase a = 'q' := by simpa using h
  have hdrop : ([a] ++ rest).drop (1 + (rest.takeWhile isDecimal).length) =
      rest.dropWhile isDecimal := by
    rw [← List.drop_drop]
    exact drop_takeWhile isDecimal rest
  simp only [List.cons_append, List.nil_append] at hdrop
  simp [quantAt, startsWith, numbered, ha, hdrop]

theorem quantAt_word (h : text.map foldCase ∈ ["bf16".toList, "f16".toList, "f32".toList]) :
    quantAt u (text ++ rest) = some text := by
  simp only [List.mem_cons, List.not_mem_nil, or_false] at h
  rcases h with h | h | h
  · have htake : (text ++ rest).take 4 = text :=
      List.take_left' (by simpa using congrArg List.length h)
    simp [quantAt, startsWith, h, htake]
  all_goals
    have htake : (text ++ rest).take 3 = text :=
      List.take_left' (by simpa using congrArg List.length h)
    simp [quantAt, startsWith, h, htake]

theorem quantAt_cases (h : quantAt u text = some found) :
    (∃ letters rest, text = letters ++ rest ∧ letters.map foldCase = "iq".toList ∧
      numbered letters rest (List.takeWhile u.isWord) = some found) ∨
    (∃ letters rest, text = letters ++ rest ∧ letters.map foldCase = "q".toList ∧
      numbered letters rest tagSuffixes = some found) ∨
    (found.map foldCase ∈ ["bf16".toList, "f16".toList, "f32".toList] ∧ found <+: text) := by
  have hword {word : String} (hstart : startsWith word text = true)
      (hfound : text.take word.toList.length = found) :
      found.map foldCase = word.toList ∧ found <+: text := by
    obtain ⟨letters, rest, rfl, hletters⟩ := startsWith_iff.1 hstart
    have hlength : letters.length = word.toList.length := by rw [← hletters, List.length_map]
    rw [← hlength, List.take_left] at hfound
    rw [← hfound]
    exact ⟨hletters, List.prefix_append _ _⟩
  by_cases hiq : startsWith "iq" text = true
  · obtain ⟨letters, rest, rfl, hletters⟩ := startsWith_iff.1 hiq
    exact .inl ⟨letters, rest, rfl, hletters, (quantAt_iq hletters).symm.trans h⟩
  by_cases hq : startsWith "q" text = true
  · obtain ⟨letters, rest, rfl, hletters⟩ := startsWith_iff.1 hq
    exact .inr (.inl ⟨letters, rest, rfl, hletters, (quantAt_q hletters).symm.trans h⟩)
  refine .inr (.inr ?_)
  simp only [quantAt, hiq, hq, false_and, if_false, Bool.false_eq_true] at h
  split at h
  · next hstart =>
    obtain ⟨hfound, hprefix⟩ := hword hstart (Option.some.inj h)
    exact ⟨by simp [hfound], hprefix⟩
  split at h
  · next hstart =>
    rcases hstart with hstart | hstart
    all_goals
      obtain ⟨hfound, hprefix⟩ := hword hstart (Option.some.inj h)
      exact ⟨by simp [hfound], hprefix⟩
  · cases h

theorem finds_quantAt (u : Unicode) : Finds (IsTag u) (quantAt u) where
  sound := by
    intro text found h
    rcases quantAt_cases h with ⟨letters, rest, rfl, hletters, hfound⟩ |
      ⟨letters, rest, rfl, hletters, hfound⟩ | ⟨hword, hprefix⟩
    · refine ⟨?_, numbered_prefix (fun l => List.takeWhile_prefix u.isWord) hfound⟩
      obtain ⟨hne, rfl⟩ := numbered_eq_some.1 hfound
      exact .iq hletters hne (fun c hc => List.mem_takeWhile_imp hc)
        fun c hc => List.mem_takeWhile_imp hc
    · refine ⟨?_, numbered_prefix (fun l => (exists_suffixes l).1) hfound⟩
      obtain ⟨hne, rfl⟩ := numbered_eq_some.1 hfound
      obtain ⟨-, groups, hread, hgroups⟩ := exists_suffixes (rest.dropWhile isDecimal)
      rw [hread]
      exact .q hletters hne (fun c hc => List.mem_takeWhile_imp hc) hgroups
    · exact ⟨.word hword, hprefix⟩
  greedy := by
    rintro _ other htag ⟨more, rfl⟩
    cases htag with
    | iq hletters hne hdigits hsuffix =>
      rw [List.append_assoc, List.append_assoc, quantAt_iq hletters]
      exact numbered_greedy hne hdigits (prefix_takeWhile hsuffix)
    | @q letters digits groups hletters hne hdigits hgroups =>
      rw [List.append_assoc, List.append_assoc, quantAt_q hletters]
      apply numbered_greedy hne hdigits
      cases groups with
      | nil => exact List.nil_prefix
      | cons g groups =>
        -- the groups begin with an underscore, so the digits end in front of them
        have hdash : ¬ isDecimal '_' = true := by decide
        rw [List.flatMap_cons, List.cons_append, List.cons_append,
          List.takeWhile_cons_of_neg hdash, List.dropWhile_cons_of_neg hdash]
        exact tagSuffixes_flatMap hgroups
    | word h => exact ⟨other, quantAt_word h, List.prefix_refl other⟩

/-- A character that no part of a tag has. -/
structure IsOutside (u : Unicode) (c : Char) : Prop where
  word : u.isWord c = false
  decimal : isDecimal c = false
  tagChar : isTagChar c = false
  underscore : c ≠ '_'
  letter : foldCase c ∉ "iqbf1632".toList

theorem IsTag.not_mem {c : Char} (hc : IsOutside u c) (htag : IsTag u text) : c ∉ text := by
  have hletters {letters : List Char} (word : String) (hword : word.toList ⊆ "iqbf1632".toList)
      (h : letters.map foldCase = word.toList) : c ∉ letters := fun hmem =>
    hc.letter (hword (h ▸ List.mem_map_of_mem hmem))
  have hdigits {digits : List Char} (h : ∀ d ∈ digits, isDecimal d = true) : c ∉ digits :=
    fun hmem => by cases hc.decimal.symm.trans (h c hmem)
  -- letters, digits, and the characters of the suffixes
  cases htag with
  | iq h _ hd hsuffix =>
    have hword : c ∉ _ := fun hmem => by cases hc.word.symm.trans (hsuffix c hmem)
    simp [hletters "iq" (by decide) h, hdigits hd, hword]
  | q h _ hd hgroups =>
    have hgroup : ∀ g ∈ _, c ∉ g := fun g hg hmem => by
      cases hc.tagChar.symm.trans ((hgroups g hg).2 c hmem)
    simp only [List.mem_append, hletters "q" (by decide) h, hdigits hd, List.mem_flatMap,
      List.mem_cons, hc.underscore, false_or]
    rintro ⟨g, hg, hmem⟩
    exact hgroup g hg hmem
  | word h =>
    simp only [List.mem_cons, List.not_mem_nil, or_false] at h
    rcases h with h | h | h
    · exact hletters "bf16" (by decide) h
    · exact hletters "f16" (by decide) h
    · exact hletters "f32" (by decide) h

theorem isOutside_dash (h : u.isWord '-' = false) : IsOutside u '-' :=
  ⟨h, by decide, by decide, by decide, by decide⟩

theorem isOutside_slash (h : u.isWord '/' = false) : IsOutside u '/' :=
  ⟨h, by decide, by decide, by decide, by decide⟩

theorem not_isTag_nil : ¬ IsTag u [] := by
  intro h
  obtain ⟨found, hfound, -⟩ := (finds_quantAt u).greedy h (List.prefix_refl [])
  simp [quantAt, startsWith] at hfound

end

theorem pathStem_gguf {stem : String} (hne : stem ≠ "") (hslash : '/' ∉ stem.toList) :
    pathStem (stem ++ ".gguf") = stem := by
  have hlist : (stem ++ ".gguf").toList = stem.toList ++ ['.', 'g', 'g', 'u', 'f'] :=
    String.toList_append
  have hlength : stem.toList ≠ [] := fun h => hne (String.toList_eq_nil_iff.1 h)
  have hsplit : splitOn '/' (stem ++ ".gguf") = [stem ++ ".gguf"] := by
    rw [splitOn, List.splitOn_eq_singleton, List.map_singleton, String.ofList_toList]
    rw [hlist]
    simpa using hslash
  have hempty : stem ++ ".gguf" ≠ "" := fun h => by
    rw [h] at hlist
    simp at hlist
  have hdot : stem ++ ".gguf" ≠ "." := fun h => by
    rw [h] at hlist
    simpa using congrArg List.length hlist
  have hpart : [stem ++ ".gguf"].filter (fun part => part ≠ "" ∧ part ≠ ".") =
      [stem ++ ".gguf"] := by
    simp [hempty, hdot]
  simp only [pathStem, hsplit, hpart, hlist, List.getLast?_singleton, Option.getD_some]
  simp [hlength]

section
variable {u : Unicode} {file : String}

theorem quantization_eq_some (hne : file ≠ "") {found : List Char}
    (h : IsLeftmost (IsTag u) found (pathStem file).toList) :
    quantization u (some file) = some (u.upper (String.ofList found)) := by
  rw [quantization, if_neg hne, ((finds_quantAt u).search_eq_some_iff not_isTag_nil).2 h]
  rfl

theorem quantized_mem_categories {entry : ModelEntry}
    (h : (quantization u entry.ggufFile).isSome = true) : "Quantized" ∈ categories u entry := by
  unfold categories
  dsimp only
  split
  · exact List.mem_append_right _ (List.mem_singleton.2 rfl)
  · next hnot => exact not_not.1 (not_and.1 hnot h)

theorem tagged_of_quantization {tag : String}
    (h : quantization u (some file) = some (u.upper tag)) : Tagged u file tag where
  quantization := h
  categories entry hentry := quantized_mem_categories (by rw [hentry, h]; rfl)

end

/-- The tag that a file name ends in is the one that is shown exactly when the leftmost tag inside
the name before it, if there is one, reads the same. -/
theorem tagged_iff (u : Unicode) (hdash : u.isWord '-' = false) (hslash : u.isWord '/' = false)
    (name tag : String) (hname : '/' ∉ name.toList) (htag : IsTag u tag.toList) :
    Tagged u (name ++ "-" ++ tag ++ ".gguf") tag ↔
      ∀ found, IsLeftmost (IsTag u) found name.toList →
        u.upper (String.ofList found) = u.upper tag := by
  have hstem : pathStem (name ++ "-" ++ tag ++ ".gguf") = name ++ "-" ++ tag := by
    apply pathStem_gguf
    · intro h
      simpa using congrArg (fun s : String => s.toList.length) h
    · have hnot := htag.not_mem (isOutside_slash hslash)
      simp [hname, hnot]
  have hne : name ++ "-" ++ tag ++ ".gguf" ≠ "" := fun h => by
    simpa using congrArg (fun s : String => s.toList.length) h
  have hread {found : List Char}
    (hfound : IsLeftmost (IsTag u) found (name ++ "-" ++ tag).toList) :=
    quantization_eq_some hne (hstem.symm ▸ hfound)
  have hcut {found : List Char} : IsLeftmost (IsTag u) found (name ++ "-" ++ tag).toList ↔
      IsLeftmost (IsTag u) found name.toList ∨
        (∀ other, IsTag u other → ¬ other <:+: name.toList) ∧
          IsLeftmost (IsTag u) found tag.toList := by
    rw [String.toList_append, String.toList_append, List.append_assoc]
    exact isLeftmost_cut (fun t ht => ht.not_mem (isOutside_dash hdash)) not_isTag_nil
  -- the tag itself is found only where none stands in the name
  by_cases hmatch : ∃ found, IsLeftmost (IsTag u) found name.toList
  · obtain ⟨found, hfound⟩ := hmatch
    have hquant := hread (hcut.2 (.inl hfound))
    constructor
    · rintro ⟨htagged, -⟩ other hother
      rw [(finds_quantAt u).isLeftmost_unique not_isTag_nil hother hfound]
      exact Option.some.inj (hquant.symm.trans htagged)
    · intro h
      exact tagged_of_quantization (hquant.trans (congrArg some (h found hfound)))
  · have hfree : ∀ other, IsTag u other → ¬ other <:+: name.toList := fun other hother hinside =>
      hmatch ((finds_quantAt u).exists_isLeftmost hother hinside)
    have hquant := hread (hcut.2 (.inr ⟨hfree, isLeftmost_self htag⟩))
    rw [String.ofList_toList] at hquant
    exact ⟨fun _ found hfound => absurd ⟨found, hfound⟩ hmatch,
      fun _ => tagged_of_quantization hquant⟩

/-- The tables of the letters that the tags are made of. -/
def Sample.letters : Unicode := { upper := fun s => String.ofList (s.toList.map Char.toUpper) }

theorem tagged_qwen : Tagged {} "Qwen2.5-14B-Instruct-Q4_K_M.gguf" "Q4_K_M" := by
  have hfile : "Qwen2.5-14B-Instruct" ++ "-" ++ "Q4_K_M" ++ ".gguf" =
      "Qwen2.5-14B-Instruct-Q4_K_M.gguf" := by decide
  have hread : quantAt {} "Q4_K_M".toList = some "Q4_K_M".toList := by decide
  have hnone : "Qwen2.5-14B-Instruct".toList.tails.findSome? (quantAt {}) = none := by decide
  rw [← hfile]
  refine (tagged_iff {} (by decide) (by decide) "Qwen2.5-14B-Instruct" "Q4_K_M" (by decide)
    ((finds_quantAt {}).sound hread).1).2 fun found hfound => ?_
  cases hnone.symm.trans (((finds_quantAt {}).search_eq_some_iff not_isTag_nil).2 hfound)

/-- The word before the tag has a tag in it. -/
theorem not_tagged : ¬ ∀ (u : Unicode) (name tag : String), u.isWord '-' = false →
    u.isWord '/' = false → '/' ∉ name.toList → (∀ w ∈ splitOn '-' name, ¬ IsTag u w.toList) →
    IsTag u tag.toList → Tagged u (name ++ "-" ++ tag ++ ".gguf") tag := by
  intro h
  have hsplit : splitOn '-' "QwQ32B" = ["QwQ32B"] := by decide
  have hword : ∀ w ∈ splitOn '-' "QwQ32B", ¬ IsTag Sample.letters w.toList := by
    intro w hw htag
    obtain rfl : w = "QwQ32B" := List.mem_singleton.1 (hsplit ▸ hw)
    obtain ⟨found, hfound, -⟩ := (finds_quantAt Sample.letters).greedy htag (List.prefix_refl _)
    have hnone : quantAt Sample.letters "QwQ32B".toList = none := by decide
    cases hnone.symm.trans hfound
  have hread : quantAt Sample.letters "Q8_0".toList = some "Q8_0".toList := by decide
  have htagged := h Sample.letters "QwQ32B" "Q8_0" (by decide) (by decide) (by decide) hword
    ((finds_quantAt Sample.letters).sound hread).1
  have hshown :
      quantization Sample.letters (some ("QwQ32B" ++ "-" ++ "Q8_0" ++ ".gguf")) = some "Q32" := by
    decide
  have hupper : Sample.letters.upper "Q8_0" ≠ "Q32" := by decide
  exact hupper (Option.some.inj (htagged.quantization.symm.trans hshown))

end GrillPlatform
