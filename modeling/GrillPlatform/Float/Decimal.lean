import GrillPlatform.Float.Binary64
import GrillPlatform.JsonText.Numeral

/-! The decimals of a float: the shortest that is read back, how it is written down, and how a
written number is read. -/

namespace Binary64
open JsonText

def decimal (digits : Nat) (exponent : Int) : ℚ := digits * 10 ^ exponent

/-- The multiple of a power of ten next to a float that is closest to it among those that are read
back. -/
def candidate (n : Nat) (exponent : Int) : Option Nat :=
  let w := value n / 10 ^ exponent
  let f := ⌊w⌋₊
  if nearest (decimal f exponent) = n then
    if nearest (decimal (f + 1) exponent) = n then some (roundHalfEven w) else some f
  else if nearest (decimal (f + 1) exponent) = n then some (f + 1) else none

def countdown (top : Int) (len : Nat) : List Int :=
  (List.range len).map fun i : Nat => top - (i : Int)

/-- The exponents to try, from the fewest digits on. At the last one every float is exact. -/
def exponents : List Int := countdown 309 1384

/-- The shortest decimal that is read back. -/
def shortest (n : Nat) : Nat × Int :=
  (exponents.findSome? fun e => (candidate n e).map (·, e)).getD (0, 0)

theorem mem_countdown {top : Int} {len i : Nat} (h : i < len) : top - i ∈ countdown top len :=
  List.mem_map.2 ⟨i, List.mem_range.2 h, rfl⟩

theorem roundHalfEven_mem (w : ℚ) : roundHalfEven w = ⌊w⌋₊ ∨ roundHalfEven w = ⌊w⌋₊ + 1 := by
  unfold roundHalfEven
  dsimp only
  split
  · exact .inl rfl
  · split
    · exact .inr rfl
    · omega

theorem nearest_candidate {n d : Nat} {e : Int} (h : candidate n e = some d) :
    nearest (decimal d e) = n := by
  unfold candidate at h
  dsimp only at h
  split at h
  · next hf =>
    split at h
    · next hs =>
      cases h
      rcases roundHalfEven_mem (value n / 10 ^ e) with hr | hr
      · rw [hr, hf]
      · rw [hr, hs]
    · cases h
      exact hf
  · split at h
    · next hs =>
      cases h
      exact hs
    · cases h

theorem candidate_exact {n : Nat} (h : n < infinity) : ∃ d, candidate n (-1074) = some d := by
  have hw : value n / 10 ^ (-1074 : Int) = ((units n * 5 ^ 1074 : Nat) : ℚ) := by
    rw [value, zpow_neg, show (1074 : Int) = ((1074 : Nat) : Int) from rfl, zpow_natCast,
      show (10 : ℚ) = 2 * 5 by norm_num, mul_pow]
    push_cast
    field_simp
  have hexact : nearest (decimal ⌊value n / 10 ^ (-1074 : Int)⌋₊ (-1074)) = n := by
    rw [hw, Nat.floor_natCast, decimal, ← hw, div_mul_cancel₀ _ (zpow_ne_zero _ (by norm_num)),
      nearest_value h]
  unfold candidate
  dsimp only
  rw [if_pos hexact]
  split <;> exact ⟨_, rfl⟩

/-- The printed decimal is read back. -/
theorem nearest_shortest {n : Nat} (h : n < infinity) :
    nearest (decimal (shortest n).1 (shortest n).2) = n := by
  obtain ⟨d, hd⟩ := candidate_exact h
  have hmem : (-1074 : Int) ∈ exponents := mem_countdown (i := 1383) (by omega)
  cases hfind : exponents.findSome? fun e => (candidate n e).map (·, e) with
  | none =>
    have hnone := List.findSome?_eq_none_iff.1 hfind _ hmem
    rw [hd] at hnone
    cases hnone
  | some q =>
    obtain ⟨e, -, he⟩ := List.exists_of_findSome?_eq_some hfind
    obtain ⟨d', hd', rfl⟩ := Option.map_eq_some_iff.1 he
    rw [shortest, hfind]
    exact nearest_candidate hd'

/-! ## Written down -/

/-- The digits with the point among them, or in front of an exponent when it is far off. -/
def writeDecimal (d : Nat) (e : Int) : Numeral :=
  let ds := digits d
  let point := e + ds.length
  if -4 < point ∧ point ≤ 16 then
    if point ≤ 0 then ⟨['0'], List.replicate (-point).toNat '0' ++ ds, none⟩
    else if ds.length ≤ point then
      ⟨ds ++ List.replicate (point - ds.length).toNat '0', ['0'], none⟩
    else ⟨ds.take point.toNat, ds.drop point.toNat, none⟩
  else ⟨ds.take 1, ds.drop 1, some (point - 1)⟩

/-- What `repr` writes of a finite magnitude. -/
def numeral (n : Nat) : Numeral :=
  if n = 0 then ⟨['0'], ['0'], none⟩ else writeDecimal (shortest n).1 (shortest n).2

def numeralValue (m : Numeral) : ℚ :=
  decimal (natOf (m.whole ++ m.fraction)) (m.exponent.getD 0 - m.fraction.length)

def ofNumeral (m : Numeral) : Nat := nearest (numeralValue m)

theorem decimal_mul_ten_pow (d k : Nat) (e : Int) : decimal (d * 10 ^ k) e = decimal d (e + k) := by
  rw [decimal, decimal, zpow_add₀ (by norm_num), zpow_natCast]
  push_cast
  ring

theorem isDigit_zero : ∀ c ∈ ['0'], c.isDigit = true := by
  intro c hc
  rw [List.mem_singleton.1 hc]
  decide

theorem isDigit_zeros {k : Nat} {c : Char} (h : c ∈ List.replicate k '0') : c.isDigit = true := by
  rw [List.eq_of_mem_replicate h]
  decide

theorem natOf_zeros_append (k : Nat) (ds : List Char) :
    natOf (List.replicate k '0' ++ ds) = natOf ds := by
  rw [natOf_append, natOf_zeros, Nat.zero_mul, Nat.zero_add]

theorem natOf_append_zeros (k : Nat) (ds : List Char) :
    natOf (ds ++ List.replicate k '0') = natOf ds * 10 ^ k := by
  rw [natOf_append, natOf_zeros, List.length_replicate, Nat.add_zero]

theorem numeralValue_writeDecimal {d : Nat} (hd : d ≠ 0) (e : Int) :
    numeralValue (writeDecimal d e) = decimal d e := by
  have hlen : 1 ≤ (digits d).length := by
    obtain ⟨c, cs, hcs, -⟩ := head_digits hd
    rw [hcs]
    exact Nat.le_add_left ..
  -- zeros in front, zeros behind, a point between the digits, or an exponent
  unfold writeDecimal numeralValue
  dsimp only
  split
  · split
    · next hsmall =>
      have hlead (k : Nat) : ['0'] ++ List.replicate k '0' = List.replicate (k + 1) '0' := rfl
      rw [← List.append_assoc, hlead, natOf_zeros_append, natOf_digits, List.length_append,
        List.length_replicate]
      apply congrArg (decimal d)
      rw [Option.getD_none]
      omega
    · split
      · next hlong =>
        have hlast (k : Nat) : List.replicate k '0' ++ ['0'] = List.replicate (k + 1) '0' :=
          (List.replicate_succ' ..).symm
        rw [List.append_assoc, hlast, natOf_append_zeros, natOf_digits, decimal_mul_ten_pow]
        apply congrArg (decimal d)
        rw [Option.getD_none, List.length_singleton]
        omega
      · next hlarge hshort =>
        rw [List.take_append_drop, natOf_digits, List.length_drop]
        apply congrArg (decimal d)
        rw [Option.getD_none]
        omega
  · rw [List.take_append_drop, natOf_digits, List.length_drop]
    apply congrArg (decimal d)
    rw [Option.getD_some]
    omega

theorem wellFormed_writeDecimal {d : Nat} (hd : d ≠ 0) (e : Int) :
    (writeDecimal d e).WellFormed := by
  obtain ⟨c, cs, hcs, hc⟩ := head_digits hd
  have hall : ∀ a ∈ digits d, a.isDigit = true := fun a => isDigit_digits
  unfold writeDecimal
  dsimp only
  split
  · split
    · refine ⟨.inl rfl, isDigit_zero, ?_⟩
      intro a ha
      rcases List.mem_append.1 ha with hz | ha
      · exact isDigit_zeros hz
      · exact hall a ha
    · split
      · refine ⟨.inr ⟨c, cs ++ _, by rw [hcs]; rfl, hc⟩, ?_, isDigit_zero⟩
        intro a ha
        rcases List.mem_append.1 ha with ha | hz
        · exact hall a ha
        · exact isDigit_zeros hz
      · next hpos _ =>
        obtain ⟨k, hk⟩ : ∃ k, (e + (digits d).length).toNat = k + 1 :=
          ⟨_, (Nat.succ_pred_eq_of_pos (by omega)).symm⟩
        refine ⟨.inr ⟨c, cs.take k, by rw [hk, hcs]; rfl, hc⟩, ?_, ?_⟩
        · exact fun a ha => hall a (List.mem_of_mem_take ha)
        · exact fun a ha => hall a (List.mem_of_mem_drop ha)
  · refine ⟨.inr ⟨c, [], by rw [hcs]; rfl, hc⟩, ?_, ?_⟩
    · exact fun a ha => hall a (List.mem_of_mem_take ha)
    · exact fun a ha => hall a (List.mem_of_mem_drop ha)

theorem isInteger_writeDecimal {d : Nat} (hd : d ≠ 0) (e : Int) :
    (writeDecimal d e).isInteger = false := by
  obtain ⟨c, cs, hcs, -⟩ := head_digits hd
  unfold writeDecimal Numeral.isInteger
  dsimp only
  split
  · split
    · rw [hcs, Bool.and_eq_false_iff]
      exact .inl (by simp)
    · split
      · rfl
      · next hlarge hshort =>
        have hdrop : (digits d).drop (e + (digits d).length).toNat ≠ [] := by
          intro hnil
          have hlen := List.drop_eq_nil_iff.1 hnil
          omega
        rw [Bool.and_eq_false_iff, List.isEmpty_eq_false_iff]
        exact .inl hdrop
  · exact Bool.and_false _

theorem decimal_zero (e : Int) : decimal 0 e = 0 := by
  rw [decimal, Nat.cast_zero, zero_mul]

theorem shortest_ne_zero {n : Nat} (hn : n ≠ 0) (h : n < infinity) : (shortest n).1 ≠ 0 := by
  intro hz
  have hback := nearest_shortest h
  rw [hz, decimal_zero, nearest_zero] at hback
  exact hn hback.symm

/-- What is written of a float is read back. -/
theorem ofNumeral_numeral {n : Nat} (h : n < infinity) : ofNumeral (numeral n) = n := by
  rw [ofNumeral, numeral]
  split
  · next hn =>
    have hz : numeralValue ⟨['0'], ['0'], none⟩ = 0 := decimal_zero _
    rw [hz, nearest_zero, hn]
  · next hn => rw [numeralValue_writeDecimal (shortest_ne_zero hn h), nearest_shortest h]

theorem wellFormed_numeral {n : Nat} (h : n < infinity) : (numeral n).WellFormed := by
  rw [numeral]
  split
  · exact ⟨.inl rfl, isDigit_zero, isDigit_zero⟩
  · next hn => exact wellFormed_writeDecimal (shortest_ne_zero hn h) _

theorem isInteger_numeral {n : Nat} (h : n < infinity) : (numeral n).isInteger = false := by
  rw [numeral]
  split
  · rfl
  · next hn => exact isInteger_writeDecimal (shortest_ne_zero hn h) _

end Binary64
