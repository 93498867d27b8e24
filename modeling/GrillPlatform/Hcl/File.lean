import GrillPlatform.Hcl.Heredoc

/-! A file of values: one assignment of a constant to each name. -/

namespace Hcl

inductive Value where
  | str (s : List Char)
  | num (n : Int)
  | list (xs : List (List Char))
  deriving DecidableEq

structure Assignment where
  name : List Char
  value : Value
  deriving DecidableEq

def isIdentifier (c : Char) : Bool := c.isAlphanum ∨ c = '_' ∨ c = '-'

def startsIdentifier (c : Char) : Bool := c.isAlpha ∨ c = '_'

def isSpacing (c : Char) : Bool := c = ' ' ∨ c = '\t'

def identifier (cs : List Char) : Option (List Char × List Char) :=
  match cs with
  | c :: _ => if startsIdentifier c then some (cs.takeWhile isIdentifier, cs.dropWhile isIdentifier)
    else none
  | [] => none

def skipSpacing (cs : List Char) : List Char := cs.dropWhile isSpacing

def nextLine (cs : List Char) : List Char := (cs.dropWhile (· ≠ '\n')).drop 1

/-- The text after the end of a line, which a comment may come before. -/
def lineEnd (cs : List Char) : Option (List Char) :=
  match skipSpacing cs with
  | [] => some []
  | '\n' :: cs => some cs
  | '\r' :: '\n' :: cs => some cs
  | '#' :: cs => some (nextLine cs)
  | '/' :: '/' :: cs => some (nextLine cs)
  | _ => none

/-- Skips blank lines and comment lines; `comment` is set within a comment. -/
def skipLines : Bool → List Char → List Char
  | _, [] => []
  | true, c :: cs => skipLines (c ≠ '\n') cs
  | false, '/' :: '/' :: cs => skipLines true cs
  | false, c :: cs =>
    if isSpacing c ∨ isNewline c then skipLines false cs
    else if c = '#' then skipLines true cs else c :: cs

/-- Skips what may stand between the items of a list. -/
def skipSpace (cs : List Char) : List Char := cs.dropWhile fun c => isSpacing c ∨ isNewline c

/-- The strings of a list after its opening bracket. -/
def items : Nat → List Char → Option (List (List Char) × List Char)
  | 0, _ => none
  | fuel + 1, cs =>
    match skipSpace cs with
    | ']' :: cs => some ([], cs)
    | '"' :: cs => do
      let (x, cs) ← quoted cs
      match skipSpace cs with
      | ']' :: cs => some ([x], cs)
      | ',' :: cs => (items fuel cs).map fun q => (x :: q.1, q.2)
      | _ => none
    | _ => none

def digits (cs : List Char) : Option (Nat × List Char) :=
  let ds := cs.takeWhile Char.isDigit
  if ds = [] then none else some (Nat.ofDigitChars 10 ds 0, cs.dropWhile Char.isDigit)

def number (cs : List Char) : Option (Int × List Char) :=
  match cs with
  | '-' :: cs => (digits cs).map fun q => (-(q.1 : Int), q.2)
  | cs => (digits cs).map fun q => ((q.1 : Int), q.2)

/-- A constant. The line that closes a heredoc is also the end of the assignment. -/
def expression (lenient : Bool) (cs : List Char) : Option (Value × List Char) :=
  match cs with
  | '"' :: cs => (quoted cs).map fun q => (.str q.1, q.2)
  | '[' :: cs => (items (cs.length + 1) cs).map fun q => (.list q.1, q.2)
  | '<' :: '<' :: cs => do
    let (delim, cs) ← identifier cs
    match cs with
    | '\n' :: cs => (heredoc (closes lenient delim) cs).map fun q => (.str q.1, '\n' :: q.2)
    | _ => none
  | cs => (number cs).map fun q => (.num q.1, q.2)

def assignment (lenient : Bool) (cs : List Char) : Option (Assignment × List Char) := do
  let (name, cs) ← identifier cs
  match skipSpacing cs with
  | '=' :: cs => do
    let (value, cs) ← expression lenient (skipSpacing cs)
    let rest ← lineEnd cs
    some (⟨name, value⟩, rest)
  | _ => none

/-- A file of assignments, each to another name. An assignment takes up some characters, so the
fuel that is needed is the length of the file and one more. -/
def file (lenient : Bool) : Nat → List Char → Option (List Assignment)
  | 0, _ => none
  | fuel + 1, cs =>
    match skipLines false cs with
    | [] => some []
    | cs => do
      let (a, cs) ← assignment lenient cs
      let rest ← file lenient fuel cs
      if a.name ∈ rest.map Assignment.name then none else some (a :: rest)

def read (lenient : Bool) (cs : List Char) : Option (List Assignment) :=
  file lenient (cs.length + 1) cs

/-! ## Lines -/

/-- A piece of a file, what it should assign, and when it does. -/
structure Line where
  text : List Char
  assigns : Assignment
  good : Prop

/-- The line assigns what it should exactly when it is good, whatever comes after it. -/
structure Line.Exact (lenient : Bool) (l : Line) : Prop where
  starts : ∃ c cs, l.text = c :: cs ∧ startsIdentifier c = true
  reads : l.good → ∀ rest, assignment lenient (l.text ++ rest) = some (l.assigns, rest)
  only : ∀ rest r, assignment lenient (l.text ++ rest) = some (l.assigns, r) → l.good

theorem skipLines_identifier {c : Char} (h : startsIdentifier c = true) (cs : List Char) :
    skipLines false (c :: cs) = c :: cs := by
  have hne : c ≠ '/' ∧ c ≠ '#' ∧ isSpacing c = false ∧ isNewline c = false := by
    refine ⟨?_, ?_, ?_, ?_⟩
    · rintro rfl
      revert h
      decide
    · rintro rfl
      revert h
      decide
    · apply decide_eq_false
      rintro (rfl | rfl) <;> revert h <;> decide
    · apply decide_eq_false
      rintro (rfl | rfl) <;> revert h <;> decide
  rw [skipLines]
  · simp [hne]
  · exact fun cs' h' _ => hne.1 h'

theorem file_line {lenient : Bool} {l : Line} (hl : l.Exact lenient) {fuel : Nat} {cs : List Char}
    {rest : List Assignment} (hnew : l.assigns.name ∉ rest.map Assignment.name) :
    file lenient (fuel + 1) (l.text ++ cs) = some (l.assigns :: rest) ↔
      l.good ∧ file lenient fuel cs = some rest := by
  obtain ⟨c, cs', htext, hc⟩ := hl.starts
  have hfile : file lenient (fuel + 1) (l.text ++ cs) = (do
      let (a, cs) ← assignment lenient (l.text ++ cs)
      let rest ← file lenient fuel cs
      if a.name ∈ rest.map Assignment.name then none else some (a :: rest)) := by
    rw [file, htext, List.cons_append, skipLines_identifier hc]
  rw [hfile]
  constructor
  · intro h
    obtain ⟨⟨a, r⟩, ha, h⟩ := Option.bind_eq_some_iff.1 h
    obtain ⟨rest', hrest, h⟩ := Option.bind_eq_some_iff.1 h
    split at h
    · cases h
    cases h
    have hgood := hl.only cs r ha
    rw [hl.reads hgood] at ha
    cases ha
    exact ⟨hgood, hrest⟩
  · rintro ⟨hgood, hrest⟩
    rw [hl.reads hgood]
    simp only [Option.bind_eq_bind, Option.bind_some, hrest]
    exact if_neg hnew

/-- A file of exact lines with different names is read as it should exactly when all lines are
good. -/
theorem file_lines {lenient : Bool} {ls : List Line} (hls : ∀ l ∈ ls, l.Exact lenient)
    (hnames : (ls.map fun l => l.assigns.name).Nodup) {fuel : Nat} (hfuel : ls.length < fuel) :
    file lenient fuel (ls.flatMap Line.text) = some (ls.map Line.assigns) ↔ ∀ l ∈ ls, l.good := by
  induction ls generalizing fuel with
  | nil =>
    obtain ⟨fuel, rfl⟩ := Nat.exists_eq_add_of_lt hfuel
    simp [file, skipLines]
  | cons l ls ih =>
    cases fuel with
    | zero => exact absurd hfuel (Nat.not_lt_zero _)
    | succ fuel =>
      rw [List.map_cons, List.nodup_cons] at hnames
      have hnew : l.assigns.name ∉ (ls.map Line.assigns).map Assignment.name := by
        rw [List.map_map]
        exact hnames.1
      rw [List.flatMap_cons, List.map_cons, file_line (hls l List.mem_cons_self) hnew,
        ih (fun l' h => hls l' (List.mem_cons_of_mem l h)) hnames.2
          (by rw [List.length_cons] at hfuel; omega),
        List.forall_mem_cons]

theorem read_lines {lenient : Bool} {ls : List Line} (hls : ∀ l ∈ ls, l.Exact lenient)
    (hnames : (ls.map fun l => l.assigns.name).Nodup) :
    read lenient (ls.flatMap Line.text) = some (ls.map Line.assigns) ↔ ∀ l ∈ ls, l.good := by
  have hlen : ∀ ls : List Line, (∀ l ∈ ls, l.Exact lenient) →
      ls.length ≤ (ls.flatMap Line.text).length := by
    intro ls hls
    induction ls with
    | nil => exact Nat.le_refl 0
    | cons l ls ih =>
      obtain ⟨c, cs, htext, -⟩ := (hls l List.mem_cons_self).starts
      have := ih fun l' h => hls l' (List.mem_cons_of_mem l h)
      rw [List.flatMap_cons, List.length_append, htext, List.length_cons, List.length_cons]
      omega
  exact file_lines hls hnames (Nat.lt_succ_of_le (hlen ls hls))

end Hcl
