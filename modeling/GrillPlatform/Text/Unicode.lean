import Mathlib.Data.List.Basic
import Mathlib.Tactic.Common

/-! What Python's texts and patterns know of Unicode. -/

namespace GrillPlatform

/-- The tables behind `str.lower`, `str.upper`, `\w` and `str.isdigit`. -/
structure Unicode where
  lower : String → String := String.toLower
  upper : String → String := String.toUpper
  isWord : Char → Bool := fun c => c.isAlphanum || c = '_'
  isDigit : Char → Bool := Char.isDigit

/-- The code points of the Unicode decimal digits, `\d`, by their zeros. -/
def decimalZeros : List Nat :=
  [0x30, 0x660, 0x6f0, 0x7c0, 0x966, 0x9e6, 0xa66, 0xae6, 0xb66, 0xbe6, 0xc66, 0xce6, 0xd66, 0xde6,
    0xe50, 0xed0, 0xf20, 0x1040, 0x1090, 0x17e0, 0x1810, 0x1946, 0x19d0, 0x1a80, 0x1a90, 0x1b50,
    0x1bb0, 0x1c40, 0x1c50, 0xa620, 0xa8d0, 0xa900, 0xa9d0, 0xa9f0, 0xaa50, 0xabf0, 0xff10, 0x104a0,
    0x10d30, 0x11066, 0x110f0, 0x11136, 0x111d0, 0x112f0, 0x11450, 0x114d0, 0x11650, 0x116c0,
    0x11730, 0x118e0, 0x11950, 0x11c50, 0x11d50, 0x11da0, 0x11f50, 0x16a60, 0x16ac0, 0x16b50,
    0x1d7ce, 0x1d7d8, 0x1d7e2, 0x1d7ec, 0x1d7f6, 0x1e140, 0x1e2f0, 0x1e4f0, 0x1e950, 0x1fbf0]

def isDecimal (c : Char) : Bool := decimalZeros.any fun z => z ≤ c.toNat ∧ c.toNat < z + 10

/-- How Python's `re.IGNORECASE` folds the letters the patterns below are made of. -/
def foldCase (c : Char) : Char :=
  if c.toNat = 0x17f then 's' else if c.toNat = 0x212a then 'k'
  else if c.toNat = 0x130 ∨ c.toNat = 0x131 then 'i' else c.toLower

/-- The characters `str.strip` removes. -/
def isSpace (c : Char) : Bool :=
  let n := c.toNat
  (0x09 ≤ n ∧ n ≤ 0x0d) ∨ (0x1c ≤ n ∧ n ≤ 0x20) ∨ n = 0x85 ∨ n = 0xa0 ∨ n = 0x1680 ∨
    (0x2000 ≤ n ∧ n ≤ 0x200a) ∨ n = 0x2028 ∨ n = 0x2029 ∨ n = 0x202f ∨ n = 0x205f ∨ n = 0x3000

/-- `str.strip`. -/
def strip (s : String) : String :=
  String.ofList ((s.toList.dropWhile isSpace).reverse.dropWhile isSpace).reverse

/-- The text is its own `strip_whitespace`, which, unlike `str.strip`, leaves the separators
U+001C to U+001F at the ends. -/
def isTrimmed (s : String) : Bool :=
  let blank := fun c => isSpace c && !(0x1c ≤ c.toNat && c.toNat ≤ 0x1f)
  !s.toList.head?.any blank && !s.toList.getLast?.any blank

end GrillPlatform
