import Mathlib.Data.Rat.Floor
import Mathlib.Data.BitVec
import Mathlib.Tactic.FieldSimp
import Mathlib.Tactic.Linarith
import Mathlib.Tactic.NormNum
import Mathlib.Tactic.Ring

/-! IEEE doubles by their bits. The magnitude, the bits below the sign, counts the floats up to a
value: a float is `mantissa * 2 ^ shift` units of the smallest one. Decimals are read with correct
rounding and printed as the shortest that is read back. -/

namespace Binary64

/-- The magnitudes from here on are the infinity and the NaNs. -/
def infinity : Nat := 2047 * 2 ^ 52

def magnitude (x : BitVec 64) : Nat := x.toNat % 2 ^ 63

def isFinite (x : BitVec 64) : Bool := magnitude x < infinity

def isNaN (x : BitVec 64) : Bool := infinity < magnitude x

def ofMagnitude (negative : Bool) (n : Nat) : BitVec 64 :=
  BitVec.ofNat 64 ((if negative then 2 ^ 63 else 0) + n)

theorem ofMagnitude_magnitude (x : BitVec 64) : ofMagnitude x.msb (magnitude x) = x := by
  have hlt := x.isLt
  apply BitVec.eq_of_toNat_eq
  rw [ofMagnitude, BitVec.toNat_ofNat, magnitude, BitVec.msb_eq_decide]
  by_cases h : 2 ^ (64 - 1) ≤ x.toNat
  · rw [decide_eq_true h, if_pos rfl]
    omega
  · rw [decide_eq_false h, if_neg (by decide)]
    omega

def shift (n : Nat) : Nat := n / 2 ^ 52 - 1

def mantissa (n : Nat) : Nat := n - shift n * 2 ^ 52

/-- The value of a finite magnitude, in units of the smallest float. -/
def units (n : Nat) : Nat := mantissa n * 2 ^ shift n

def value (n : Nat) : ℚ := units n / 2 ^ 1074

/-- The closest natural number, the even one of two. -/
def roundHalfEven (w : ℚ) : Nat :=
  let f := ⌊w⌋₊
  if w - f < 1 / 2 then f
  else if 1 / 2 < w - f then f + 1
  else f + f % 2

/-- The magnitude of the float closest to `v`. -/
def nearest (v : ℚ) : Nat :=
  let u := v * 2 ^ 1074
  let s := ⌊u⌋₊.log2 - 52
  min (s * 2 ^ 52 + roundHalfEven (u / 2 ^ s)) infinity

theorem roundHalfEven_natCast (n : Nat) : roundHalfEven n = n := by
  simp [roundHalfEven]

theorem mantissa_of_lt {n : Nat} (h : n < 2 ^ 53) : shift n = 0 ∧ mantissa n = n := by
  have hs : shift n = 0 := by
    rw [shift]
    omega
  exact ⟨hs, by rw [mantissa, hs]; omega⟩

theorem mantissa_of_le {n : Nat} (h : 2 ^ 53 ≤ n) :
    2 ^ 52 ≤ mantissa n ∧ mantissa n < 2 ^ 53 ∧ shift n * 2 ^ 52 + mantissa n = n := by
  rw [mantissa, shift]
  omega

theorem log2_units (n : Nat) : (units n).log2 - 52 = shift n := by
  rcases Nat.lt_or_ge n (2 ^ 53) with h | h
  · obtain ⟨hs, hm⟩ := mantissa_of_lt h
    rw [units, hs, hm, pow_zero, mul_one]
    by_cases hn : n = 0
    · subst hn
      rfl
    · have := (Nat.log2_lt hn).2 h
      omega
  · obtain ⟨hlo, hhi, -⟩ := mantissa_of_le h
    have hpow : 0 < 2 ^ shift n := Nat.two_pow_pos _
    have hne : units n ≠ 0 := (Nat.mul_pos (by omega) hpow).ne'
    have hlog : (units n).log2 = 52 + shift n := by
      rw [Nat.log2_eq_iff hne, units, show 52 + shift n + 1 = 53 + shift n by omega,
        pow_add, pow_add]
      exact ⟨Nat.mul_le_mul_right _ hlo, Nat.mul_lt_mul_of_pos_right hhi hpow⟩
    omega

theorem nearest_value {n : Nat} (h : n < infinity) : nearest (value n) = n := by
  have hu : value n * 2 ^ 1074 = (units n : ℚ) := by
    rw [value]
    field_simp
  have hscaled : (units n : ℚ) / 2 ^ shift n = (mantissa n : ℚ) := by
    rw [units]
    push_cast
    field_simp
  have hn : shift n * 2 ^ 52 + mantissa n = n := by
    rcases Nat.lt_or_ge n (2 ^ 53) with hlt | hle
    · obtain ⟨hs, hm⟩ := mantissa_of_lt hlt
      rw [hs, hm]
      omega
    · exact (mantissa_of_le hle).2.2
  unfold nearest
  simp only [hu, Nat.floor_natCast, log2_units, hscaled, roundHalfEven_natCast, hn]
  exact Nat.min_eq_left h.le

theorem nearest_zero : nearest 0 = 0 := by
  simp [nearest, roundHalfEven]

end Binary64
