import Mathlib.Data.List.Infix
import Mathlib.Tactic.Common

/-! The literals of HCL, and the strings between quotes. -/

namespace Hcl

def isNewline (c : Char) : Bool := c = '\n' ∨ c = '\r'

def hexValue (c : Char) : Option Nat :=
  if '0' ≤ c ∧ c ≤ '9' then some (c.toNat - '0'.toNat)
  else if 'a' ≤ c ∧ c ≤ 'f' then some (c.toNat - 'a'.toNat + 10)
  else if 'A' ≤ c ∧ c ≤ 'F' then some (c.toNat - 'A'.toNat + 10)
  else none

/-- The character with the code point written in exactly `n` hexadecimal digits. -/
def codePoint (n : Nat) (cs : List Char) : Option Char := do
  let digits ← (cs.take n).mapM hexValue
  let code := digits.foldl (fun v d => 16 * v + d) 0
  if digits.length = n ∧ code.isValidChar then some (Char.ofNat code) else none

/-- What an escape sequence stands for, and how many characters it has after the backslash. -/
def escapeSequence : List Char → Option (Char × Nat)
  | 'n' :: _ => some ('\n', 1)
  | 'r' :: _ => some ('\r', 1)
  | 't' :: _ => some ('\t', 1)
  | '"' :: _ => some ('"', 1)
  | '\\' :: _ => some ('\\', 1)
  | 'u' :: cs => (codePoint 4 cs).map (·, 5)
  | 'U' :: cs => (codePoint 8 cs).map (·, 9)
  | _ => none

/-- What a text starts with stands for, and how many characters follow the first of it. A doubled
marker stands for one; a template is no literal. -/
def token (quoted : Bool) : List Char → Option (List Char × Nat)
  | '$' :: '$' :: '\x7b' :: _ => some (['$', '\x7b'], 2)
  | '%' :: '%' :: '\x7b' :: _ => some (['%', '\x7b'], 2)
  | '$' :: '\x7b' :: _ => none
  | '%' :: '\x7b' :: _ => none
  | '\\' :: cs => if quoted then (escapeSequence cs).map fun e => ([e.1], e.2) else some (['\\'], 0)
  | c :: _ => some ([c], 0)
  | [] => none

/-- The value of a literal. The first `skip` characters belong to the token before. -/
def literal (quoted : Bool) : Nat → List Char → Option (List Char)
  | 0, [] => some []
  | _ + 1, [] => none
  | skip + 1, _ :: cs => literal quoted skip cs
  | 0, c :: cs => do
    let t ← token quoted (c :: cs)
    let v ← literal quoted t.2 cs
    some (t.1 ++ v)

/-- A quoted literal as it is written, up to its closing quote, and the rest. -/
def rawQuoted : List Char → Option (List Char × List Char)
  | [] => none
  | '"' :: cs => some ([], cs)
  | '\\' :: d :: cs =>
    if isNewline d then none else (rawQuoted cs).map fun q => ('\\' :: d :: q.1, q.2)
  | c :: cs =>
    if isNewline c ∨ c = '\\' then none else (rawQuoted cs).map fun q => (c :: q.1, q.2)

/-- A quoted string after its opening quote: its value and the rest. -/
def quoted (cs : List Char) : Option (List Char × List Char) := do
  let (raw, rest) ← rawQuoted cs
  let v ← literal true 0 raw
  some (v, rest)

/-- A text that a quoted string may hold as it is. -/
def Verbatim (s : List Char) : Prop :=
  (∀ c ∈ s, c ∉ ['"', '\\', '\n', '\r']) ∧ ¬ ['$', '\x7b'] <:+: s ∧ ¬ ['%', '\x7b'] <:+: s

instance decidableVerbatim : DecidablePred Verbatim := fun s =>
  @instDecidableAnd _ _ (List.decidableBAll _ s) instDecidableAnd

theorem Verbatim.infix {s t : List Char} (h : Verbatim t) (hs : s <:+: t) : Verbatim s :=
  ⟨fun c hc => h.1 c (hs.subset hc), fun h' => h.2.1 (h'.trans hs), fun h' => h.2.2 (h'.trans hs)⟩

theorem verbatim_of_forall {s : List Char} (h : ∀ c ∈ s, c ∉ ['"', '\\', '\n', '\r', '$', '%']) :
    Verbatim s := by
  refine ⟨fun c hc hm => h c hc ?_, fun hi => ?_, fun hi => ?_⟩
  · simp only [List.mem_cons, List.not_mem_nil, or_false] at hm ⊢
    tauto
  · exact h '$' (hi.subset List.mem_cons_self) (by decide)
  · exact h '%' (hi.subset List.mem_cons_self) (by decide)

theorem Verbatim.tail {c : Char} {s : List Char} (h : Verbatim (c :: s)) : Verbatim s :=
  h.infix (List.suffix_cons c s).isInfix

theorem token_of_not {q : Bool} {c : Char} {cs : List Char} (hb : c ≠ '\\')
    (hd : c = '$' → ∀ cs', cs ≠ '\x7b' :: cs') (hdd : c = '$' → ∀ cs', cs ≠ '$' :: '\x7b' :: cs')
    (hp : c = '%' → ∀ cs', cs ≠ '\x7b' :: cs') (hpp : c = '%' → ∀ cs', cs ≠ '%' :: '\x7b' :: cs') :
    token q (c :: cs) = some ([c], 0) := by
  unfold token
  split
  all_goals grind

theorem token_verbatim {q : Bool} {c : Char} {cs : List Char} (h : Verbatim (c :: cs)) :
    token q (c :: cs) = some ([c], 0) := by
  have hmark : ∀ {m : Char} {u : List Char}, [m, '\x7b'] <:+: u → u <:+: c :: cs →
      m = '$' ∨ m = '%' → False := by
    rintro m u hm hu (rfl | rfl)
    · exact h.2.1 (hm.trans hu)
    · exact h.2.2 (hm.trans hu)
  refine token_of_not ?_ ?_ ?_ ?_ ?_
  · rintro rfl
    exact h.1 '\\' List.mem_cons_self (by decide)
  · rintro rfl cs' rfl
    exact hmark (List.prefix_append ['$', '\x7b'] cs').isInfix (List.infix_refl _) (.inl rfl)
  · rintro rfl cs' rfl
    exact hmark (List.prefix_append ['$', '\x7b'] cs').isInfix
      (List.suffix_cons _ _).isInfix (.inl rfl)
  · rintro rfl cs' rfl
    exact hmark (List.prefix_append ['%', '\x7b'] cs').isInfix (List.infix_refl _) (.inr rfl)
  · rintro rfl cs' rfl
    exact hmark (List.prefix_append ['%', '\x7b'] cs').isInfix
      (List.suffix_cons _ _).isInfix (.inr rfl)

theorem literal_verbatim {q : Bool} {s : List Char} (h : Verbatim s) : literal q 0 s = some s := by
  induction s with
  | nil => rfl
  | cons c s ih =>
    rw [literal, token_verbatim h]
    simp [ih h.tail]

theorem rawQuoted_cons {c : Char} {cs : List Char} (hq : c ≠ '"') (hb : c ≠ '\\')
    (hn : isNewline c = false) :
    rawQuoted (c :: cs) = (rawQuoted cs).map fun q => (c :: q.1, q.2) := by
  rw [rawQuoted]
  · simp [hn, hb]
  · exact hq
  · exact fun d cs' hc _ => hb hc

theorem rawQuoted_verbatim {s rest : List Char} (h : Verbatim s) :
    rawQuoted (s ++ '"' :: rest) = some (s, rest) := by
  induction s with
  | nil => rfl
  | cons c s ih =>
    have hc := h.1 c List.mem_cons_self
    simp only [List.mem_cons, List.not_mem_nil, or_false, not_or] at hc
    obtain ⟨hq, hb, hn, hr⟩ := hc
    rw [List.cons_append, rawQuoted_cons hq hb (by simp [isNewline, hn, hr]), ih h.tail]
    rfl

theorem quoted_verbatim {s rest : List Char} (h : Verbatim s) :
    quoted (s ++ '"' :: rest) = some (s, rest) := by
  simp [quoted, rawQuoted_verbatim h, literal_verbatim h]

theorem rawQuoted_eq_some {cs raw rest : List Char} (h : rawQuoted cs = some (raw, rest)) :
    cs = raw ++ '"' :: rest ∧ (∀ c ∈ raw, isNewline c = false) ∧ ('\\' ∉ raw → '"' ∉ raw) := by
  fun_induction rawQuoted cs generalizing raw with
  | case1 => cases h
  | case2 cs =>
    cases h
    exact ⟨rfl, by simp, by simp⟩
  | case3 d cs hd => cases h
  | case4 d cs hd ih =>
    obtain ⟨⟨raw', rest'⟩, hq, hr⟩ := Option.map_eq_some_iff.1 h
    cases hr
    obtain ⟨rfl, hn, -⟩ := ih hq
    refine ⟨rfl, ?_, fun hb => absurd List.mem_cons_self hb⟩
    rintro c (_ | ⟨_, _ | ⟨_, hc⟩⟩)
    · rfl
    · exact eq_false_of_ne_true hd
    · exact hn c hc
  | case5 c cs hq hb hc => cases h
  | case6 c cs hq hb hc ih =>
    obtain ⟨⟨raw', rest'⟩, hraw, hr⟩ := Option.map_eq_some_iff.1 h
    cases hr
    obtain ⟨rfl, hn, hquote⟩ := ih hraw
    rw [not_or] at hc
    refine ⟨rfl, ?_, fun hb => ?_⟩
    · rintro d (_ | ⟨_, hd⟩)
      · exact eq_false_of_ne_true hc.1
      · exact hn d hd
    · rintro (_ | ⟨_, hd⟩)
      · exact hq rfl
      · exact hquote (fun h => hb (List.mem_cons_of_mem c h)) hd

theorem escapeSequence_eq_some {cs : List Char} {e : Char × Nat} (h : escapeSequence cs = some e) :
    0 < e.2 := by
  unfold escapeSequence at h
  split at h
  case h_6 | h_7 =>
    obtain ⟨c, -, rfl⟩ := Option.map_eq_some_iff.1 h
    exact Nat.succ_pos _
  case h_8 => cases h
  all_goals
    cases h
    decide

theorem token_eq_some {q : Bool} {c : Char} {cs : List Char} {t : List Char × Nat}
    (h : token q (c :: cs) = some t) :
    t.1.length < t.2 + 1 ∨ t.2 = 0 ∧ t.1 = [c] ∧ (q = true → c ≠ '\\') := by
  unfold token at h
  split at h
  case h_1 | h_2 =>
    cases h
    exact .inl (by decide)
  case h_3 | h_4 | h_7 => cases h
  case h_5 hbs =>
    cases hbs
    cases q with
    | false =>
      cases h
      exact .inr ⟨rfl, rfl, nofun⟩
    | true =>
      obtain ⟨e, he, rfl⟩ := Option.map_eq_some_iff.1 h
      have := escapeSequence_eq_some he
      exact .inl (by simpa using this)
  case h_6 c' cs' _ _ _ _ hbs heq =>
    cases heq
    cases h
    exact .inr ⟨rfl, rfl, fun _ => hbs⟩

theorem literal_cons {q : Bool} {c : Char} {cs v : List Char} (h : literal q 0 (c :: cs) = some v) :
    ∃ t v', token q (c :: cs) = some t ∧ literal q t.2 cs = some v' ∧ v = t.1 ++ v' := by
  rw [literal] at h
  obtain ⟨t, ht, h⟩ := Option.bind_eq_some_iff.1 h
  obtain ⟨v', hv, h⟩ := Option.bind_eq_some_iff.1 h
  cases h
  exact ⟨t, v', ht, hv, rfl⟩

theorem length_literal {q : Bool} {k : Nat} {cs v : List Char} (h : literal q k cs = some v) :
    v.length + k ≤ cs.length := by
  induction cs generalizing k v with
  | nil =>
    cases k with
    | zero =>
      cases h
      exact Nat.le_refl 0
    | succ k => cases h
  | cons c cs ih =>
    cases k with
    | succ k =>
      have := ih h
      rw [List.length_cons]
      omega
    | zero =>
      obtain ⟨t, v', ht, hv, rfl⟩ := literal_cons h
      have hlen := ih hv
      have hout : t.1.length ≤ t.2 + 1 := by
        rcases token_eq_some ht with hlt | ⟨hn, hout, -⟩
        · exact hlt.le
        · rw [hout, hn]
          exact Nat.le_refl 1
      rw [List.length_append, List.length_cons]
      omega

theorem literal_eq_self {q : Bool} {cs v : List Char} (h : literal q 0 cs = some v)
    (hlen : cs.length ≤ v.length) :
    v = cs ∧ (q = true → '\\' ∉ cs) ∧ ¬ ['$', '\x7b'] <:+: cs ∧ ¬ ['%', '\x7b'] <:+: cs := by
  induction cs generalizing v with
  | nil =>
    cases h
    exact ⟨rfl, by simp, by decide, by decide⟩
  | cons c cs ih =>
    obtain ⟨t, v', ht, hv, rfl⟩ := literal_cons h
    have hrest := length_literal hv
    rw [List.length_cons, List.length_append] at hlen
    rcases token_eq_some ht with hlt | ⟨hn, hout, hbs⟩
    · omega
    rw [hn] at hv
    rw [hout, List.length_singleton] at hlen
    obtain ⟨rfl, hb, hd, hp⟩ := ih hv (by omega)
    refine ⟨by rw [hout]; rfl, ?_, ?_, ?_⟩
    · rintro hq (_ | ⟨_, hm⟩)
      · exact hbs hq rfl
      · exact hb hq hm
    · intro hi
      rcases List.infix_cons_iff.1 hi with ⟨u, hu⟩ | hi
      · cases hu
        cases ht
      · exact hd hi
    · intro hi
      rcases List.infix_cons_iff.1 hi with ⟨u, hu⟩ | hi
      · cases hu
        cases ht
      · exact hp hi

/-- A text put between quotes at the end of a line is read back only where it is plain. -/
theorem verbatim_of_quoted {s rest rest' : List Char} {c : Char} (hc : isNewline c = true)
    (h : quoted (s ++ '"' :: c :: rest) = some (s, rest')) : Verbatim s := by
  obtain ⟨⟨raw, r⟩, hraw, h⟩ := Option.bind_eq_some_iff.1 h
  obtain ⟨v, hv, h⟩ := Option.bind_eq_some_iff.1 h
  cases h
  obtain ⟨hcut, hline, hquote⟩ := rawQuoted_eq_some hraw
  have hlen := length_literal hv
  -- a literal that went past the quote would go past the end of the line
  have hend : raw.length ≤ s.length := by
    rcases List.append_eq_append_iff.1 hcut with ⟨a, rfl, ha⟩ | ⟨a, rfl, -⟩
    · cases a with
      | nil => simp
      | cons d a =>
        cases a with
        | nil =>
          obtain ⟨rfl, -⟩ := List.cons.inj (List.cons.inj ha).2
          cases hc
        | cons e a =>
          obtain ⟨rfl, -⟩ := List.cons.inj (List.cons.inj ha).2
          rw [hline c (by simp)] at hc
          cases hc
    · simp
  obtain ⟨rfl, hb, hd, hp⟩ := literal_eq_self hv hend
  refine ⟨fun d hd' hm => ?_, hd, hp⟩
  simp only [List.mem_cons, List.not_mem_nil, or_false] at hm
  rcases hm with rfl | rfl | rfl | rfl
  · exact hquote (hb rfl) hd'
  · exact hb rfl hd'
  · cases hline _ hd'
  · cases hline _ hd'

end Hcl
