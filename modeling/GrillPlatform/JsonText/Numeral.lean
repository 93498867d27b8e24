import Mathlib.Data.Nat.Digits.Lemmas
import Mathlib.Tactic.Linarith

/-! The numbers of a JSON text: their digits, fraction and exponent, written down and read. -/

namespace JsonText

/-- The decimal digits, from the front; of zero there are none. -/
def digits (n : Nat) : List Char := (Nat.digits 10 n).reverse.map Nat.digitChar

def digitValue (c : Char) : Nat := c.toNat - '0'.toNat

def natOf (ds : List Char) : Nat := Nat.ofDigits 10 (ds.reverse.map digitValue)

structure Numeral where
  whole : List Char
  fraction : List Char
  exponent : Option Int
  deriving DecidableEq, Repr

/-- The exponent with its sign and at least two digits. -/
def exponentText (e : Int) : List Char :=
  let ds := digits e.natAbs
  (if e < 0 then '-' else '+') :: (List.replicate (2 - ds.length) '0' ++ ds)

def Numeral.text (n : Numeral) : List Char :=
  n.whole ++ ((if n.fraction = [] then [] else '.' :: n.fraction) ++
    (match n.exponent with
      | none => []
      | some e => 'e' :: exponentText e))

def Numeral.isInteger (n : Numeral) : Bool := n.fraction.isEmpty && n.exponent.isNone

def readWhole : List Char → Option (List Char × List Char)
  | [] => none
  | c :: cs =>
    if c = '0' then some (['0'], cs)
    else if c.isDigit then some (c :: cs.takeWhile Char.isDigit, cs.dropWhile Char.isDigit)
    else none

def readFraction (cs : List Char) : List Char × List Char :=
  let ds := cs.tail.takeWhile Char.isDigit
  if cs.head? = some '.' ∧ ds ≠ [] then (ds, cs.tail.dropWhile Char.isDigit) else ([], cs)

def readSign : List Char → Int × List Char
  | [] => (1, [])
  | c :: cs => if c = '-' then (-1, cs) else if c = '+' then (1, cs) else (1, c :: cs)

def readExponent (cs : List Char) : Option Int × List Char :=
  let signed := readSign cs.tail
  let ds := signed.2.takeWhile Char.isDigit
  if (cs.head? = some 'e' ∨ cs.head? = some 'E') ∧ ds ≠ [] then
    (some (signed.1 * natOf ds), signed.2.dropWhile Char.isDigit)
  else (none, cs)

/-- The longest number at the start of the text, without its sign. -/
def readNumeral (cs : List Char) : Option (Numeral × List Char) := do
  let (whole, cs) ← readWhole cs
  let fraction := readFraction cs
  let exponent := readExponent fraction.2
  return (⟨whole, fraction.1, exponent.1⟩, exponent.2)

theorem digitChar_isDigit {d : Nat} (h : d < 10) : (Nat.digitChar d).isDigit = true := by
  interval_cases d <;> decide

theorem digitValue_digitChar {d : Nat} (h : d < 10) : digitValue (Nat.digitChar d) = d := by
  interval_cases d <;> decide

theorem digitChar_ne_zero {d : Nat} (h : d < 10) (hd : d ≠ 0) : Nat.digitChar d ≠ '0' := by
  interval_cases d <;> first | exact absurd rfl hd | decide

theorem isDigit_digits {n : Nat} {c : Char} (h : c ∈ digits n) : c.isDigit = true := by
  obtain ⟨d, hd, rfl⟩ := List.mem_map.1 h
  exact digitChar_isDigit (Nat.digits_lt_base (by norm_num) (List.mem_reverse.1 hd))

theorem natOf_digits (n : Nat) : natOf (digits n) = n := by
  have hback : (Nat.digits 10 n).map (digitValue ∘ Nat.digitChar) = Nat.digits 10 n := by
    rw [List.map_congr_left (g := id) ?_, List.map_id]
    intro d hd
    exact digitValue_digitChar (Nat.digits_lt_base (by norm_num) hd)
  rw [natOf, digits, ← List.map_reverse, List.reverse_reverse, List.map_map, hback,
    Nat.ofDigits_digits]

theorem natOf_append (a b : List Char) : natOf (a ++ b) = natOf a * 10 ^ b.length + natOf b := by
  rw [natOf, List.reverse_append, List.map_append, Nat.ofDigits_append, List.length_map,
    List.length_reverse, natOf, natOf]
  ring

theorem natOf_zeros (k : Nat) : natOf (List.replicate k '0') = 0 := by
  rw [natOf, List.reverse_replicate, List.map_replicate]
  exact Nat.ofDigits_replicate_zero

theorem head_digits {n : Nat} (h : n ≠ 0) : ∃ c cs, digits n = c :: cs ∧ c ≠ '0' := by
  have hne : Nat.digits 10 n ≠ [] := Nat.digits_ne_nil_iff_ne_zero.2 h
  have hlast := Nat.getLast_digit_ne_zero 10 h
  have hlt : (Nat.digits 10 n).getLast hne < 10 :=
    Nat.digits_lt_base (by norm_num) (List.getLast_mem hne)
  refine ⟨_, (Nat.digits 10 n).dropLast.reverse.map Nat.digitChar, ?_, digitChar_ne_zero hlt hlast⟩
  rw [digits]
  conv_lhs => rw [← List.dropLast_append_getLast hne, List.reverse_append]
  rfl

/-! ## Reading what was written -/

/-- No digit, point or exponent follows. -/
def Ends (rest : List Char) : Prop :=
  ∀ c ∈ rest.head?, c.isDigit = false ∧ c ≠ '.' ∧ c ≠ 'e' ∧ c ≠ 'E'

structure Numeral.WellFormed (n : Numeral) : Prop where
  whole : n.whole = ['0'] ∨ ∃ c cs, n.whole = c :: cs ∧ c ≠ '0'
  digits : ∀ c ∈ n.whole, c.isDigit = true
  fraction : ∀ c ∈ n.fraction, c.isDigit = true

theorem Numeral.WellFormed.text_start {n : Numeral} (h : n.WellFormed) :
    ∃ c cs, n.text = c :: cs ∧ c.isDigit = true := by
  obtain ⟨c, cs, hc⟩ : ∃ c cs, n.whole = c :: cs := by
    rcases h.whole with hz | ⟨c, cs, hc, -⟩
    · exact ⟨_, _, hz⟩
    · exact ⟨c, cs, hc⟩
  have hdigit := h.digits c (hc ▸ List.mem_cons_self)
  rw [Numeral.text, hc]
  exact ⟨c, _, rfl, hdigit⟩

theorem takeWhile_digits {ds rest : List Char} (hd : ∀ c ∈ ds, c.isDigit = true)
    (hr : ∀ c ∈ rest.head?, c.isDigit = false) :
    (ds ++ rest).takeWhile Char.isDigit = ds ∧ (ds ++ rest).dropWhile Char.isDigit = rest := by
  rw [List.takeWhile_append_of_pos hd, List.dropWhile_append_of_pos hd]
  cases rest with
  | nil => simp
  | cons c rest =>
    have hc : c.isDigit = false := hr c rfl
    simp [hc]

theorem exponentText_digits (e : Int) : ∃ ds, exponentText e = (if e < 0 then '-' else '+') :: ds ∧
    (∀ c ∈ ds, c.isDigit = true) ∧ natOf ds = e.natAbs ∧ ds ≠ [] := by
  refine ⟨_, rfl, ?_, ?_, ?_⟩
  · intro c hc
    rcases List.mem_append.1 hc with hz | hd
    · rw [List.eq_of_mem_replicate hz]
      decide
    · exact isDigit_digits hd
  · rw [natOf_append, natOf_zeros, natOf_digits, Nat.zero_mul, Nat.zero_add]
  · intro hnil
    have hlen := congrArg List.length hnil
    simp only [List.length_append, List.length_replicate, List.length_nil] at hlen
    omega

theorem readExponent_text (e : Int) {rest : List Char} (hr : Ends rest) :
    readExponent ('e' :: (exponentText e ++ rest)) = (some e, rest) := by
  obtain ⟨ds, hds, hall, hval, hne⟩ := exponentText_digits e
  obtain ⟨htake, hdrop⟩ := takeWhile_digits hall fun c hc => (hr c hc).1
  have hsign :
      ∃ s : Int, readSign ((if e < 0 then '-' else '+') :: (ds ++ rest)) = (s, ds ++ rest) ∧
      s * e.natAbs = e := by
    by_cases hneg : e < 0
    · rw [if_pos hneg]
      exact ⟨-1, rfl, by omega⟩
    · rw [if_neg hneg]
      exact ⟨1, rfl, by omega⟩
  obtain ⟨s, hs, hse⟩ := hsign
  unfold readExponent
  simp only [hds, List.tail_cons, List.cons_append, hs, htake, hdrop, hval, hse]
  rw [if_pos ⟨.inl rfl, hne⟩]

theorem readExponent_none {rest : List Char} (hr : Ends rest) :
    readExponent rest = (none, rest) := by
  rw [readExponent, if_neg]
  rintro ⟨he | he, -⟩
  · exact (hr 'e' he).2.2.1 rfl
  · exact (hr 'E' he).2.2.2 rfl

theorem readFraction_text {ds rest : List Char} (hne : ds ≠ []) (hd : ∀ c ∈ ds, c.isDigit = true)
    (hr : ∀ c ∈ rest.head?, c.isDigit = false) :
    readFraction ('.' :: (ds ++ rest)) = (ds, rest) := by
  obtain ⟨htake, hdrop⟩ := takeWhile_digits hd hr
  unfold readFraction
  simp only [List.tail_cons, htake, hdrop]
  rw [if_pos ⟨rfl, hne⟩]

theorem readFraction_none {rest : List Char} (hr : ∀ c ∈ rest.head?, c ≠ '.') :
    readFraction rest = ([], rest) := by
  rw [readFraction, if_neg]
  rintro ⟨hdot, -⟩
  exact hr '.' hdot rfl

theorem readWhole_text {n : Numeral} (h : n.WellFormed) {rest : List Char}
    (hr : ∀ c ∈ rest.head?, c.isDigit = false) :
    readWhole (n.whole ++ rest) = some (n.whole, rest) := by
  have hd := h.digits
  rcases h.whole with hz | ⟨c, cs, hc, hne⟩
  · rw [hz]
    rfl
  · rw [hc] at hd ⊢
    obtain ⟨htake, hdrop⟩ :=
      takeWhile_digits (fun a ha => hd a (List.mem_cons_of_mem _ ha)) hr
    rw [List.cons_append, readWhole, if_neg hne, if_pos (hd c List.mem_cons_self), htake, hdrop]

theorem readNumeral_text {n : Numeral} (h : n.WellFormed) {rest : List Char} (hr : Ends rest) :
    readNumeral (n.text ++ rest) = some (n, rest) := by
  have hlast : ∃ tail, (match n.exponent with
      | none => []
      | some e => 'e' :: exponentText e) ++ rest = tail ∧ readExponent tail = (n.exponent, rest) ∧
      ∀ c ∈ tail.head?, c.isDigit = false ∧ c ≠ '.' := by
    refine ⟨_, rfl, ?_⟩
    cases n.exponent with
    | none => exact ⟨readExponent_none hr, fun c hc => ⟨(hr c hc).1, (hr c hc).2.1⟩⟩
    | some e =>
      refine ⟨readExponent_text e hr, ?_⟩
      rintro _ ⟨⟩
      decide
  obtain ⟨tail, htail, hexp, hend⟩ := hlast
  have hmiddle : ∃ middle, (if n.fraction = [] then [] else '.' :: n.fraction) ++ tail = middle ∧
      readFraction middle = (n.fraction, tail) ∧ ∀ c ∈ middle.head?, c.isDigit = false := by
    refine ⟨_, rfl, ?_⟩
    by_cases hf : n.fraction = []
    · rw [if_pos hf, hf]
      exact ⟨readFraction_none fun c hc => (hend c hc).2, fun c hc => (hend c hc).1⟩
    · rw [if_neg hf]
      refine ⟨readFraction_text hf h.fraction fun c hc => (hend c hc).1, ?_⟩
      rintro _ ⟨⟩
      decide
  obtain ⟨middle, hmid, hfrac, hdigit⟩ := hmiddle
  rw [Numeral.text, List.append_assoc, List.append_assoc, htail, hmid, readNumeral,
    readWhole_text h hdigit]
  simp only [Option.bind_eq_bind, Option.bind_some, hfrac, hexp, Option.pure_def]

end JsonText
