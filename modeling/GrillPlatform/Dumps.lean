import GrillPlatform.Aggregation
import GrillPlatform.Float.Decimal
import GrillPlatform.JsonText.Sequence
import GrillPlatform.JsonText.Strings

/-! `json.dumps` and `json.loads` with their defaults, and the reading of RFC 8259, which knows no
NaN and no infinities. -/

namespace GrillPlatform
open JsonText Binary64

def nan : PyFloat := 0x7ff8000000000000

def signed (negative : Bool) (m : Numeral) : List Char :=
  if negative then '-' :: m.text else m.text

def intText (n : Int) : List Char :=
  signed (n < 0) ⟨if n = 0 then ['0'] else digits n.natAbs, [], none⟩

def floatText (x : PyFloat) : List Char :=
  if isFinite x then signed x.msb (numeral (magnitude x))
  else if isNaN x then ['N', 'a', 'N']
  else if x.msb then ['-', 'I', 'n', 'f', 'i', 'n', 'i', 't', 'y']
  else ['I', 'n', 'f', 'i', 'n', 'i', 't', 'y']

mutual

def dumpsChars : Json → List Char
  | .null => ['n', 'u', 'l', 'l']
  | .bool b => if b then ['t', 'r', 'u', 'e'] else ['f', 'a', 'l', 's', 'e']
  | .int n => intText n
  | .float x => floatText x
  | .str s => quote s.toList
  | .arr xs => '[' :: (join (dumpsItems xs) ++ [']'])
  | .obj fields => '\x7b' :: (join (dumpsFields fields) ++ ['\x7d'])

def dumpsItems : List Json → List (List Char)
  | [] => []
  | x :: xs => dumpsChars x :: dumpsItems xs

def dumpsFields : List (String × Json) → List (List Char)
  | [] => []
  | (k, v) :: fields => (quote k.toList ++ (':' :: ' ' :: dumpsChars v)) :: dumpsFields fields

end

def dumps (j : Json) : String := String.ofList (dumpsChars j)

/-- The later value of a key replaces the earlier one. -/
def dictSet (fields : List (String × Json)) (field : String × Json) : List (String × Json) :=
  if field.1 ∈ fields.map (·.1) then fields.map fun f => if f.1 = field.1 then field else f
  else fields ++ [field]

def dictOf (pairs : List (String × Json)) : List (String × Json) := pairs.foldl dictSet []

def readNumber (cs : List Char) : Option (Json × List Char) := do
  let negative := decide (cs.head? = some '-')
  let (m, rest) ← readNumeral (if negative then cs.tail else cs)
  let n : Int := natOf m.whole
  return (if m.isInteger then .int (if negative then -n else n)
    else .float (ofMagnitude negative (ofNumeral m)), rest)

section
variable (strict : Bool)

/-- The words, in the strict reading without those of `json` alone. -/
def words : List (List Char × Json) :=
  [(['n', 'u', 'l', 'l'], .null), (['t', 'r', 'u', 'e'], .bool true),
    (['f', 'a', 'l', 's', 'e'], .bool false)] ++
    if strict then []
    else [(['N', 'a', 'N'], .float nan),
      (['I', 'n', 'f', 'i', 'n', 'i', 't', 'y'], .float (ofMagnitude false infinity)),
      (['-', 'I', 'n', 'f', 'i', 'n', 'i', 't', 'y'], .float (ofMagnitude true infinity))]

def readWord (cs : List Char) : Option (Json × List Char) :=
  ((words strict).find? fun w => w.1.isPrefixOf cs).map fun w => (w.2, cs.drop w.1.length)

def readMember (value : List Char → Option (Json × List Char)) (cs : List Char) :
    Option ((String × Json) × List Char) := do
  let cs := skip cs
  guard (cs.head? = some '"')
  let (k, cs) ← readString cs.tail
  let cs := skip cs
  guard (cs.head? = some ':')
  let (v, cs) ← value cs.tail
  return ((String.ofList k, v), cs)

def readValue : Nat → List Char → Option (Json × List Char)
  | 0, _ => none
  | fuel + 1, cs =>
    let cs := skip cs
    if cs.head? = some '"' then (readString cs.tail).map fun p => (.str (String.ofList p.1), p.2)
    else if cs.head? = some '[' then
      (readSequence (readValue fuel) ']' fuel cs.tail).map fun p => (.arr p.1, p.2)
    else if cs.head? = some '\x7b' then
      (readSequence (readMember (readValue fuel)) '\x7d' fuel cs.tail).map fun p =>
        (.obj (dictOf p.1), p.2)
    else (readNumber cs).or (readWord strict cs)

/-- Integers are read whatever their length, and an escape of half a surrogate pair is not. -/
def loads (text : String) : Option Json := do
  let (v, rest) ← readValue strict (text.toList.length + 1) text.toList
  guard (skip rest = [])
  return v

end

/-! ## Reading what was written -/

def floatBack (strict : Bool) (x : PyFloat) : Option PyFloat :=
  if isFinite x then some x
  else if strict then none
  else some (if isNaN x then nan else x)

section
variable (back : PyFloat → Option PyFloat)

mutual

def reread : Json → Option Json
  | .null => some .null
  | .bool b => some (.bool b)
  | .int n => some (.int n)
  | .float x => (back x).map .float
  | .str s => some (.str s)
  | .arr xs => (rereadItems xs).map .arr
  | .obj fields => (rereadFields fields).map fun fields => .obj (dictOf fields)

def rereadItems : List Json → Option (List Json)
  | [] => some []
  | x :: xs => do return (← reread x) :: (← rereadItems xs)

def rereadFields : List (String × Json) → Option (List (String × Json))
  | [] => some []
  | (k, v) :: fields => do return (k, ← reread v) :: (← rereadFields fields)

end

theorem rereadItems_eq (xs : List Json) : rereadItems back xs = xs.mapM (reread back) := by
  induction xs with
  | nil => rfl
  | cons x xs ih => rw [rereadItems, ih, List.mapM_cons]

theorem rereadFields_eq (fields : List (String × Json)) : rereadFields back fields =
    fields.mapM fun f => (reread back f.2).map (f.1, ·) := by
  induction fields with
  | nil => rfl
  | cons f fields ih =>
    rw [rereadFields, ih, List.mapM_cons]
    cases reread back f.2 <;> rfl

end

theorem dumpsItems_eq (xs : List Json) : dumpsItems xs = xs.map dumpsChars := by
  induction xs with
  | nil => rfl
  | cons x xs ih => rw [dumpsItems, ih, List.map_cons]

def fieldText (f : String × Json) : List Char := quote f.1.toList ++ (':' :: ' ' :: dumpsChars f.2)

theorem dumpsFields_eq (fields : List (String × Json)) :
    dumpsFields fields = fields.map fieldText := by
  induction fields with
  | nil => rfl
  | cons f fields ih => rw [dumpsFields, ih, List.map_cons, fieldText]

theorem Json.induct {P : Json → Prop} (null : P .null) (bool : ∀ b, P (.bool b))
    (int : ∀ n, P (.int n)) (float : ∀ x, P (.float x)) (str : ∀ s, P (.str s))
    (arr : ∀ xs, (∀ x ∈ xs, P x) → P (.arr xs))
    (obj : ∀ fields, (∀ f ∈ fields, P f.2) → P (.obj fields)) : ∀ j, P j
  | .null => null
  | .bool b => bool b
  | .int n => int n
  | .float x => float x
  | .str s => str s
  | .arr xs => arr xs fun x _ => Json.induct null bool int float str arr obj x
  | .obj fields => obj fields fun (k, v) hf =>
    have : sizeOf v < sizeOf fields := by
      have hlt := List.sizeOf_lt_of_mem hf
      rw [Prod.mk.sizeOf_spec] at hlt
      omega
    Json.induct null bool int float str arr obj v

theorem ne_of_isDigit {c d : Char} (hc : c.isDigit = true) (hd : d.isDigit = false) : c ≠ d := by
  rintro rfl
  rw [hc] at hd
  cases hd

theorem isBlank_of_isDigit {c : Char} (hc : c.isDigit = true) : isBlank c = false := by
  simp only [isBlank, Bool.or_eq_false_iff, decide_eq_false_iff_not]
  exact ⟨⟨⟨ne_of_isDigit hc (by decide), ne_of_isDigit hc (by decide)⟩,
    ne_of_isDigit hc (by decide)⟩, ne_of_isDigit hc (by decide)⟩

theorem signed_start (negative : Bool) {m : Numeral} (h : m.WellFormed) :
    ∃ c cs, signed negative m = c :: cs ∧ (c = '-' ∨ c.isDigit = true) := by
  cases negative with
  | true => exact ⟨_, _, rfl, .inl rfl⟩
  | false =>
    obtain ⟨c, cs, hc, hdigit⟩ := h.text_start
    exact ⟨c, cs, hc, .inr hdigit⟩

theorem wellFormed_int (n : Int) :
    Numeral.WellFormed ⟨if n = 0 then ['0'] else digits n.natAbs, [], none⟩ := by
  by_cases hn : n = 0
  · rw [if_pos hn]
    exact ⟨.inl rfl, isDigit_zero, fun c hc => absurd hc (by simp)⟩
  · rw [if_neg hn]
    exact ⟨.inr (head_digits (Int.natAbs_ne_zero.2 hn)), fun c => isDigit_digits,
      fun c hc => absurd hc (by simp)⟩

theorem readNumber_signed (negative : Bool) {m : Numeral} (h : m.WellFormed) {rest : List Char}
    (hr : Ends rest) : readNumber (signed negative m ++ rest) =
      some (if m.isInteger then .int (if negative then -(natOf m.whole : Int) else natOf m.whole)
        else .float (ofMagnitude negative (ofNumeral m)), rest) := by
  have hread := readNumeral_text h hr
  obtain ⟨c, cs, hc, hdigit⟩ := h.text_start
  cases negative with
  | true =>
    have hhead : decide ((signed true m ++ rest).head? = some '-') = true := rfl
    have htail : (signed true m ++ rest).tail = m.text ++ rest := rfl
    unfold readNumber
    simp only [hhead, if_true, htail, hread, Option.bind_eq_bind, Option.bind_some, Option.pure_def]
  | false =>
    have hhead : decide ((m.text ++ rest).head? = some '-') = false := by
      rw [decide_eq_false_iff_not, hc]
      simpa using ne_of_isDigit hdigit (by decide)
    have hsigned : signed false m = m.text := rfl
    rw [hsigned]
    unfold readNumber
    simp only [hhead, Bool.false_eq_true, if_false, hread, Option.bind_eq_bind, Option.bind_some,
      Option.pure_def]

theorem readNumber_intText (n : Int) {rest : List Char} (hr : Ends rest) :
    readNumber (intText n ++ rest) = some (.int n, rest) := by
  have hint : Numeral.isInteger ⟨if n = 0 then ['0'] else digits n.natAbs, [], none⟩ = true := rfl
  have hval :
      (if decide (n < 0) = true then -(natOf (if n = 0 then ['0'] else digits n.natAbs) : Int)
      else natOf (if n = 0 then ['0'] else digits n.natAbs)) = n := by
    by_cases hn : n = 0
    · subst hn
      rfl
    · rw [if_neg hn, natOf_digits]
      by_cases hneg : n < 0
      · rw [if_pos (decide_eq_true hneg)]
        omega
      · rw [if_neg (by simpa using hneg)]
        omega
  rw [intText, readNumber_signed _ (wellFormed_int n) hr, if_pos hint, hval]

theorem readNumber_floatText {x : PyFloat} (hx : isFinite x = true) {rest : List Char}
    (hr : Ends rest) : readNumber (signed x.msb (numeral (magnitude x)) ++ rest) =
      some (.float x, rest) := by
  have hlt : magnitude x < infinity := of_decide_eq_true hx
  rw [readNumber_signed _ (wellFormed_numeral hlt) hr, isInteger_numeral hlt, ofNumeral_numeral hlt,
    ofMagnitude_magnitude]
  rfl

section
variable {strict : Bool} {fuel : Nat}

/-- The value ends where a bracket or a comma follows. -/
def Follows (rest : List Char) : Prop := ∀ c ∈ rest.head?, c = ',' ∨ c = ']' ∨ c = '\x7d'

theorem ends_of_follows {rest : List Char} (h : Follows rest) : Ends rest := by
  intro c hc
  rcases h c hc with rfl | rfl | rfl <;> decide

theorem readValue_blank (fuel : Nat) (cs : List Char) :
    readValue strict fuel (' ' :: cs) = readValue strict fuel cs := by
  cases fuel <;> rfl

theorem readValue_scalar {c : Char} (hblank : isBlank c = false) (hquote : c ≠ '"') (harr : c ≠ '[')
    (hobj : c ≠ '\x7b') (cs : List Char) : readValue strict (fuel + 1) (c :: cs) =
      (readNumber (c :: cs)).or (readWord strict (c :: cs)) := by
  have hhead {d : Char} (hd : c ≠ d) : (c :: cs).head? ≠ some d := by simpa using hd
  unfold readValue
  simp only [skip_cons hblank]
  rw [if_neg (hhead hquote), if_neg (hhead harr), if_neg (hhead hobj)]

theorem readValue_signed (negative : Bool) {m : Numeral} (h : m.WellFormed) (rest : List Char)
    {r : Json × List Char} (hread : readNumber (signed negative m ++ rest) = some r) :
    readValue strict (fuel + 1) (signed negative m ++ rest) = some r := by
  obtain ⟨c, cs, hc, hstart⟩ := signed_start negative h
  rw [hc, List.cons_append] at hread ⊢
  have hne {d : Char} (hd : d.isDigit = false) (hd' : d ≠ '-') : c ≠ d := by
    rcases hstart with rfl | hdigit
    · exact hd'.symm
    · exact ne_of_isDigit hdigit hd
  have hblank : isBlank c = false := by
    rcases hstart with rfl | hdigit
    · rfl
    · exact isBlank_of_isDigit hdigit
  rw [readValue_scalar hblank (hne (by decide) (by decide)) (hne (by decide) (by decide))
    (hne (by decide) (by decide)), hread]
  rfl

theorem readValue_floatText (x : PyFloat) {rest : List Char} (hr : Ends rest) :
    readValue strict (fuel + 1) (floatText x ++ rest) =
      (floatBack strict x).map fun x => (.float x, rest) := by
  rw [floatText, floatBack]
  split
  · next hx =>
    have hlt : magnitude x < infinity := of_decide_eq_true hx
    exact readValue_signed _ (wellFormed_numeral hlt) rest (readNumber_floatText hx hr)
  · next hx =>
    split
    · next hnan =>
      cases strict <;> rfl
    · next hnan =>
      have hmag : magnitude x = infinity := by
        rw [isFinite, decide_eq_true_eq] at hx
        rw [isNaN, decide_eq_true_eq] at hnan
        omega
      have hback := ofMagnitude_magnitude x
      rw [hmag] at hback
      cases hmsb : x.msb
      · rw [hmsb] at hback
        rw [← hback]
        cases strict <;> rfl
      · rw [hmsb] at hback
        rw [← hback]
        cases strict <;> rfl

theorem readValue_quote (s : String) (rest : List Char) :
    readValue strict (fuel + 1) (quote s.toList ++ rest) = some (.str s, rest) := by
  have hstring :
      readString ((s.toList.flatMap escapeChar ++ ['"']) ++ rest) = some (s.toList, rest) := by
    rw [List.append_assoc]
    exact readString_quote s.toList rest
  have hread : readValue strict (fuel + 1) (quote s.toList ++ rest) =
      (readString ((s.toList.flatMap escapeChar ++ ['"']) ++ rest)).map fun p =>
        (.str (String.ofList p.1), p.2) := rfl
  rw [hread, hstring, Option.map_some, String.ofList_toList]

theorem dumpsChars_start (j : Json) :
    ∃ c cs, dumpsChars j = c :: cs ∧ isBlank c = false ∧ c ≠ ']' := by
  have hsigned (negative : Bool) {m : Numeral} (h : m.WellFormed) :
      ∃ c cs, signed negative m = c :: cs ∧ isBlank c = false ∧ c ≠ ']' := by
    obtain ⟨c, cs, hc, rfl | hdigit⟩ := signed_start negative h
    · exact ⟨_, cs, hc, by decide, by decide⟩
    · exact ⟨c, cs, hc, isBlank_of_isDigit hdigit, ne_of_isDigit hdigit (by decide)⟩
  cases j with
  | null => exact ⟨_, _, rfl, by decide, by decide⟩
  | bool b => cases b <;> exact ⟨_, _, rfl, by decide, by decide⟩
  | int n => exact hsigned _ (wellFormed_int n)
  | float x =>
    rw [dumpsChars, floatText]
    split
    · next hx => exact hsigned _ (wellFormed_numeral (of_decide_eq_true hx))
    · split
      · exact ⟨_, _, rfl, by decide, by decide⟩
      · split <;> exact ⟨_, _, rfl, by decide, by decide⟩
  | str s => exact ⟨_, _, rfl, by decide, by decide⟩
  | arr xs => exact ⟨_, _, rfl, by decide, by decide⟩
  | obj fields => exact ⟨_, _, rfl, by decide, by decide⟩

theorem readMember_blank {value : List Char → Option (Json × List Char)} (cs : List Char) :
    readMember value (' ' :: cs) = readMember value cs := rfl

theorem readMember_field {value : List Char → Option (Json × List Char)} {f : String × Json}
    {r : Option Json} {rest : List Char} (hblank : ∀ cs, value (' ' :: cs) = value cs)
    (hread : value (dumpsChars f.2 ++ rest) = r.map (·, rest)) :
    readMember value (fieldText f ++ rest) = (r.map (f.1, ·)).map (·, rest) := by
  have htext : fieldText f ++ rest = '"' :: (f.1.toList.flatMap escapeChar ++
      '"' :: ':' :: ' ' :: (dumpsChars f.2 ++ rest)) := by
    simp [fieldText, quote]
  have hskip (c : Char) (h : isBlank c = false) (cs : List Char) : skip (c :: cs) = c :: cs :=
    skip_cons h cs
  rw [htext]
  unfold readMember
  simp only [hskip '"' rfl, hskip ':' rfl, List.head?_cons, List.tail_cons, guard_true,
    readString_quote, Option.bind_eq_bind, Option.bind_some, Option.pure_def, hblank, hread,
    String.ofList_toList]
  cases r <;> rfl

/-- Where its dump is followed by what may follow a value, the reader finds the value. -/
def Rereads (strict : Bool) (j : Json) : Prop :=
  ∀ {fuel : Nat} {rest : List Char}, (dumpsChars j).length < fuel → Follows rest →
    readValue strict fuel (dumpsChars j ++ rest) = (reread (floatBack strict) j).map (·, rest)

theorem exists_succ {n fuel : Nat} (h : n < fuel) : ∃ k, fuel = k + 1 := ⟨fuel - 1, by omega⟩

theorem rereads_arr {xs : List Json} (ih : ∀ x ∈ xs, Rereads strict x) :
    Rereads strict (.arr xs) := by
  intro fuel rest hf _
  obtain ⟨fuel, rfl⟩ := exists_succ hf
  have hlen : (join (xs.map dumpsChars)).length + 1 < fuel := by
    rw [dumpsChars, dumpsItems_eq, List.length_cons, List.length_append,
      List.length_singleton] at hf
    omega
  have hcount : xs.length ≤ (join (xs.map dumpsChars)).length := by
    have hle := @count_le_join (xs.map dumpsChars) fun t ht => by
      obtain ⟨x, -, rfl⟩ := List.mem_map.1 ht
      obtain ⟨c, cs, hc, -⟩ := dumpsChars_start x
      exact hc ▸ List.cons_ne_nil c cs
    rwa [List.length_map] at hle
  have hitems : readSequence (readValue strict fuel) ']' fuel
      (join (xs.map dumpsChars) ++ ']' :: rest) =
      (xs.mapM (reread (floatBack strict))).map (·, rest) := by
    refine readSequence_join rfl (by decide) (readValue_blank fuel) rest ?_ ?_ (by omega)
    · intro x hx c rest' hc
      have hle := length_le_join (List.mem_map_of_mem (f := dumpsChars) hx)
      apply ih x hx (by omega)
      rintro _ ⟨⟩
      rcases hc with rfl | rfl
      · exact .inl rfl
      · exact .inr (.inl rfl)
    · exact fun x _ => dumpsChars_start x
  have hread : readValue strict (fuel + 1) (dumpsChars (.arr xs) ++ rest) =
      (readSequence (readValue strict fuel) ']' fuel
        ((join (dumpsItems xs) ++ [']']) ++ rest)).map fun p => (.arr p.1, p.2) := rfl
  rw [hread, dumpsItems_eq, List.append_assoc, List.singleton_append, hitems, reread,
    rereadItems_eq, Option.map_map, Option.map_map]
  rfl

theorem rereads_obj {fields : List (String × Json)} (ih : ∀ f ∈ fields, Rereads strict f.2) :
    Rereads strict (.obj fields) := by
  intro fuel rest hf _
  obtain ⟨fuel, rfl⟩ := exists_succ hf
  have hlen : (join (fields.map fieldText)).length + 1 < fuel := by
    rw [dumpsChars, dumpsFields_eq, List.length_cons, List.length_append,
      List.length_singleton] at hf
    omega
  have hcount : fields.length ≤ (join (fields.map fieldText)).length := by
    have hle := @count_le_join (fields.map fieldText) fun t ht => by
      obtain ⟨f, -, rfl⟩ := List.mem_map.1 ht
      exact List.cons_ne_nil _ _
    rwa [List.length_map] at hle
  have hitems : readSequence (readMember (readValue strict fuel)) '\x7d' fuel
      (join (fields.map fieldText) ++ '\x7d' :: rest) =
      (fields.mapM fun f => (reread (floatBack strict) f.2).map (f.1, ·)).map (·, rest) := by
    refine readSequence_join rfl (by decide) readMember_blank rest ?_ ?_ (by omega)
    · intro f hmem c rest' hc
      have hle := length_le_join (List.mem_map_of_mem (f := fieldText) hmem)
      refine readMember_field (readValue_blank fuel) (ih f hmem ?_ ?_)
      · rw [fieldText, List.length_append, List.length_cons, List.length_cons] at hle
        omega
      · rintro _ ⟨⟩
        rcases hc with rfl | rfl
        · exact .inl rfl
        · exact .inr (.inr rfl)
    · exact fun f _ => ⟨_, _, rfl, by decide, by decide⟩
  have hread : readValue strict (fuel + 1) (dumpsChars (.obj fields) ++ rest) =
      (readSequence (readMember (readValue strict fuel)) '\x7d' fuel
        ((join (dumpsFields fields) ++ ['\x7d']) ++ rest)).map fun p =>
          (.obj (dictOf p.1), p.2) := rfl
  rw [hread, dumpsFields_eq, List.append_assoc, List.singleton_append, hitems, reread,
    rereadFields_eq, Option.map_map, Option.map_map]
  rfl

theorem readValue_dumps (j : Json) : Rereads strict j := by
  induction j using Json.induct with
  | null =>
    intro fuel rest hf _
    obtain ⟨fuel, rfl⟩ := exists_succ hf
    cases strict <;> rfl
  | bool b =>
    intro fuel rest hf _
    obtain ⟨fuel, rfl⟩ := exists_succ hf
    cases b <;> cases strict <;> rfl
  | int n =>
    intro fuel rest hf hr
    obtain ⟨fuel, rfl⟩ := exists_succ hf
    exact readValue_signed _ (wellFormed_int n) rest (readNumber_intText n (ends_of_follows hr))
  | float x =>
    intro fuel rest hf hr
    obtain ⟨fuel, rfl⟩ := exists_succ hf
    rw [dumpsChars, readValue_floatText x (ends_of_follows hr), reread, Option.map_map]
    rfl
  | str s =>
    intro fuel rest hf _
    obtain ⟨fuel, rfl⟩ := exists_succ hf
    exact readValue_quote s rest
  | arr xs ih => exact rereads_arr ih
  | obj fields ih => exact rereads_obj ih

theorem loads_dumps (j : Json) : loads strict (dumps j) = reread (floatBack strict) j := by
  have hread := @readValue_dumps strict j ((dumps j).toList.length + 1) [] (by
    rw [dumps, String.toList_ofList]
    exact Nat.lt_succ_self _) (by intro c hc; cases hc)
  rw [List.append_nil] at hread
  have htext : (dumps j).toList = dumpsChars j := String.toList_ofList
  unfold loads
  rw [← htext] at hread
  rw [hread]
  cases reread (floatBack strict) j <;> rfl

end

end GrillPlatform
