import Mathlib.Data.List.Basic
import Mathlib.Tactic.IntervalCases

/-! The strings of a JSON text: printable ASCII as it is, the rest escaped in units of UTF-16. -/

namespace JsonText

/-- The escapes of one letter. -/
def shortEscapes : List (Char × Char) :=
  [('"', '"'), ('\\', '\\'), ('\n', 'n'), ('\r', 'r'), ('\t', 't'), ('\x08', 'b'), ('\x0c', 'f')]

def hex4 (n : Nat) : List Char :=
  [Nat.digitChar (n / 4096 % 16), Nat.digitChar (n / 256 % 16), Nat.digitChar (n / 16 % 16),
    Nat.digitChar (n % 16)]

def escapeUnit (n : Nat) : List Char := '\\' :: 'u' :: hex4 n

def escapeChar (c : Char) : List Char :=
  match shortEscapes.lookup c with
  | some e => ['\\', e]
  | none =>
    let n := c.toNat
    if 0x20 ≤ n ∧ n ≤ 0x7e then [c]
    else if n < 0x10000 then escapeUnit n
    else escapeUnit (0xd800 + (n - 0x10000) / 1024) ++ escapeUnit (0xdc00 + (n - 0x10000) % 1024)

def quote (s : List Char) : List Char := '"' :: (s.flatMap escapeChar ++ ['"'])

def hexValue (c : Char) : Option Nat :=
  (List.range 16).find? fun d => Nat.digitChar d = c ∨ (Nat.digitChar d).toUpper = c

def readHex : List Char → Option Nat
  | [a, b, c, d] => do
    return (← hexValue a) * 4096 + (← hexValue b) * 256 + (← hexValue c) * 16 + (← hexValue d)
  | _ => none

/-- What the letter behind a backslash stands for. -/
def unescape (e : Char) : Option Nat :=
  if e = '/' then some '/'.toNat else (shortEscapes.find? (·.2 = e)).map (·.1.toNat)

def readUnit : List Char → Option (Nat × List Char)
  | [] => none
  | c :: cs =>
    if c = '\\' then
      if cs.head? = some 'u' then (readHex (cs.tail.take 4)).map (·, cs.tail.drop 4)
      else (cs.head?.bind unescape).map (·, cs.tail)
    else if c.toNat < 0x20 then none else some (c.toNat, cs)

def isHigh (u : Nat) : Bool := 0xd800 ≤ u ∧ u < 0xdc00

def isLow (u : Nat) : Bool := 0xdc00 ≤ u ∧ u < 0xe000

/-- A character of the string. A lone surrogate is none. -/
def readChar (cs : List Char) : Option (Char × List Char) := do
  let (u, cs) ← readUnit cs
  if isHigh u then
    let (v, cs) ← readUnit cs
    if isLow v then return (Char.ofNat (0x10000 + (u - 0xd800) * 1024 + (v - 0xdc00)), cs)
    else none
  else if isLow u then none
  else return (Char.ofNat u, cs)

def readChars : Nat → List Char → Option (List Char × List Char)
  | 0, _ => none
  | fuel + 1, cs =>
    if cs.head? = some '"' then some ([], cs.tail)
    else do
      let (c, cs) ← readChar cs
      let (s, cs) ← readChars fuel cs
      return (c :: s, cs)

/-- The string up to the closing quote. -/
def readString (cs : List Char) : Option (List Char × List Char) := readChars cs.length cs

theorem hexValue_digitChar {d : Nat} (h : d < 16) : hexValue (Nat.digitChar d) = some d := by
  interval_cases d <;> decide

theorem readHex_hex4 {n : Nat} (h : n < 0x10000) : readHex (hex4 n) = some n := by
  simp only [hex4, readHex, hexValue_digitChar (Nat.mod_lt _ (by decide : 0 < 16)),
    Option.bind_eq_bind,
    Option.bind_some, Option.pure_def, Option.some.injEq]
  omega

theorem readUnit_escapeUnit {n : Nat} (h : n < 0x10000) (rest : List Char) :
    readUnit (escapeUnit n ++ rest) = some (n, rest) := by
  have hread : readUnit (escapeUnit n ++ rest) = (readHex (hex4 n)).map (·, rest) := rfl
  rw [hread, readHex_hex4 h, Option.map_some]

theorem unescape_shortEscapes : ∀ p ∈ shortEscapes, p.2 ≠ 'u' ∧ unescape p.2 = some p.1.toNat := by
  decide

theorem mem_of_lookup {c e : Char} {table : List (Char × Char)} (h : table.lookup c = some e) :
    (c, e) ∈ table := by
  obtain ⟨before, after, htable, -⟩ := List.lookup_eq_some_iff.1 h
  rw [htable]
  exact List.mem_append_right _ List.mem_cons_self

theorem toNat_range (c : Char) :
    c.toNat < 0xd800 ∨ (0xdfff < c.toNat ∧ c.toNat < 0x110000) := c.valid

theorem isHigh_iff {u : Nat} : isHigh u = true ↔ 0xd800 ≤ u ∧ u < 0xdc00 := decide_eq_true_iff

theorem isLow_iff {u : Nat} : isLow u = true ↔ 0xdc00 ≤ u ∧ u < 0xe000 := decide_eq_true_iff

theorem readChar_unit {cs rest : List Char} {c : Char} (h : readUnit cs = some (c.toNat, rest)) :
    readChar cs = some (c, rest) := by
  have hrange := toNat_range c
  have hhigh : isHigh c.toNat = false := by
    rw [Bool.eq_false_iff, ne_eq, isHigh_iff]
    omega
  have hlow : isLow c.toNat = false := by
    rw [Bool.eq_false_iff, ne_eq, isLow_iff]
    omega
  simp only [readChar, h, hhigh, hlow, Option.bind_eq_bind, Option.bind_some, Bool.false_eq_true,
    if_false, Char.ofNat_toNat, Option.pure_def]

theorem readChar_pair {cs mid rest : List Char} {c : Char} {u v : Nat}
    (hhi : readUnit cs = some (u, mid)) (hlo : readUnit mid = some (v, rest))
    (hu : isHigh u = true) (hv : isLow v = true)
    (hjoin : 0x10000 + (u - 0xd800) * 1024 + (v - 0xdc00) = c.toNat) :
    readChar cs = some (c, rest) := by
  simp only [readChar, hhi, hlo, hu, hv, Option.bind_eq_bind, Option.bind_some, if_true, hjoin,
    Char.ofNat_toNat, Option.pure_def]

theorem readChar_escapeChar (c : Char) (rest : List Char) :
    readChar (escapeChar c ++ rest) = some (c, rest) := by
  unfold escapeChar
  split
  · next e he =>
    obtain ⟨hu, hback⟩ := unescape_shortEscapes _ (mem_of_lookup he)
    apply readChar_unit
    have hread : readUnit (['\\', e] ++ rest) =
        if some e = some 'u' then (readHex (rest.take 4)).map (·, rest.drop 4)
        else (unescape e).map (·, rest) := rfl
    rw [hread, if_neg (by simpa using hu), hback, Option.map_some]
  · next hnone =>
    dsimp only
    split
    · next hprint =>
      have hslash : c ≠ '\\' := by
        rintro rfl
        cases hnone
      apply readChar_unit
      rw [List.singleton_append, readUnit, if_neg hslash, if_neg (by omega)]
    · split
      · next hbmp => exact readChar_unit (readUnit_escapeUnit hbmp rest)
      · next hastral =>
        have hrange := toNat_range c
        rw [List.append_assoc]
        exact readChar_pair (readUnit_escapeUnit (by omega) _) (readUnit_escapeUnit (by omega) _)
          (isHigh_iff.2 (by omega)) (isLow_iff.2 (by omega)) (by omega)

theorem escapeChar_head (c : Char) : ∃ d cs, escapeChar c = d :: cs ∧ d ≠ '"' := by
  unfold escapeChar
  split
  · exact ⟨_, _, rfl, by decide⟩
  · next hnone =>
    dsimp only
    split
    · refine ⟨c, [], rfl, ?_⟩
      rintro rfl
      cases hnone
    · split <;> exact ⟨_, _, rfl, by decide⟩

theorem readChars_quote (s rest : List Char) {fuel : Nat} (hf : s.length < fuel) :
    readChars fuel (s.flatMap escapeChar ++ '"' :: rest) = some (s, rest) := by
  induction s generalizing fuel with
  | nil =>
    cases fuel with
    | zero => cases hf
    | succ fuel => rfl
  | cons c s ih =>
    cases fuel with
    | zero => cases hf
    | succ fuel =>
      obtain ⟨d, cs, hd, hne⟩ := escapeChar_head c
      have hhead : ((c :: s).flatMap escapeChar ++ '"' :: rest).head? ≠ some '"' := by
        rw [List.flatMap_cons, hd]
        simpa using hne
      rw [readChars, if_neg hhead, List.flatMap_cons, List.append_assoc, readChar_escapeChar]
      simp only [Option.bind_eq_bind, Option.bind_some, ih (Nat.lt_of_succ_lt_succ hf),
        Option.pure_def]

theorem length_le_flatMap (s : List Char) : s.length ≤ (s.flatMap escapeChar).length := by
  induction s with
  | nil => exact Nat.le_refl _
  | cons c s ih =>
    obtain ⟨d, cs, hd, -⟩ := escapeChar_head c
    rw [List.flatMap_cons, hd]
    simp only [List.length_cons, List.length_append]
    omega

theorem readString_quote (s rest : List Char) :
    readString (s.flatMap escapeChar ++ '"' :: rest) = some (s, rest) := by
  have hlen := length_le_flatMap s
  apply readChars_quote s rest
  rw [List.length_append, List.length_cons]
  omega

end JsonText
