import GrillPlatform.CloudInit
import GrillPlatform.Hcl.Lines
import GrillPlatform.Yaml.Reading

/-! The programs on the machine that read what the repository writes there, cloud-init and docker.
They are not of this repository: all that is used of them is what their documentation says. -/

namespace GrillPlatform
open CloudInit YamlText

structure Readers where
  userData : List Char → Option UserData
  /-- `docker run --env-file`. -/
  envFile : List Char → Option (List (List Char × List Char))

def isEnvName (name : List Char) : Bool :=
  name ≠ [] ∧ name.all fun c => (0x41 ≤ c.toNat ∧ c.toNat ≤ 0x5a) ∨ c = '_'

def envLines (env : List (List Char × List Char)) : List Char :=
  (env.map fun q => q.1 ++ '=' :: q.2).flatMap (· ++ ['\n'])

/-- A line `NAME=value` of the file sets the variable to everything after its first `=`. -/
structure Readers.Documented (readers : Readers) : Prop where
  userData : CloudInit.Reads readers.userData
  envFile : ∀ env : List (List Char × List Char),
    (∀ q ∈ env, isEnvName q.1 = true ∧ Printable q.2) → readers.envFile (envLines env) = some env

/-! ## Readers that do what is documented

They read no more than the repository writes. -/

namespace CloudInit

def after (key : String) : List Line → Option (List Char × List Line)
  | [] => none
  | l :: ls => if key.toList.isPrefixOf l then some (l.drop key.toList.length, ls) else none

def marker (key : String) : List Line → Option (List Line)
  | [] => none
  | l :: ls => if l = key.toList then some ls else none

def readPermissions (ls : List Line) : Option (Option (List Char) × List Line) :=
  match after "    permissions: " ls with
  | none => some (none, ls)
  | some (p, ls) => (scalar p).map fun p => (some p, ls)

def readFile (ls : List Line) : Option (File × List Line) := do
  let (path, ls) ← after "  - path: " ls
  let path ← scalar path
  let (permissions, ls) ← readPermissions ls
  let ls ← marker "    content: |" ls
  let (content, ls) ← literal 4 ls
  some (⟨path, permissions, content⟩, ls)

def readFiles : Nat → List Line → Option (List File × List Line)
  | 0, _ => none
  | fuel + 1, ls =>
    match marker "runcmd:" ls with
    | some ls => some ([], ls)
    | none => (readFile ls).bind fun q =>
      (readFiles fuel q.2).map fun r => (q.1 :: r.1, r.2)

def readCommands : List Line → Option (List (List Char))
  | [] => some []
  | l :: ls =>
    if isBlank l then readCommands ls
    else do
      let (c, _) ← after "  - " [l]
      let c ← scalar c
      let cs ← readCommands ls
      some (c :: cs)

def read (cs : List Char) : Option UserData := do
  let ls ← documentLines cs
  let ls ← marker "#cloud-config" ls
  let ls ← marker "write_files:" (ls.dropWhile isBlank)
  let (files, ls) ← readFiles ls.length ls
  let commands ← readCommands ls
  some ⟨files, commands⟩

section
variable {key : String} {e : Entry} {f : File} {ls ls' : List Line} {t : List Char}

theorem after_append (key : String) (t : List Char) (ls : List Line) :
    after key ((key.toList ++ t) :: ls) = some (t, ls) := by
  rw [after, if_pos (List.isPrefixOf_iff_prefix.2 (List.prefix_append _ _)), List.drop_left]

theorem marker_cons (key : String) (ls : List Line) : marker key (key.toList :: ls) = some ls :=
  if_pos rfl

theorem readPermissions_head (permissions : Option String)
    (hp : ∀ p ∈ permissions, '"' ∉ p.toList ∧ '\\' ∉ p.toList) :
    readPermissions ((permissions.map fun p => "    permissions: ".toList ++
      '"' :: (p.toList ++ ['"'])).toList ++ "    content: |".toList :: ls) =
      some (permissions.map String.toList, "    content: |".toList :: ls) := by
  cases permissions with
  | none =>
    have hno : "    permissions: ".toList.isPrefixOf "    content: |".toList = false := by decide
    show readPermissions ("    content: |".toList :: ls) = _
    rw [readPermissions, after, hno]
    rfl
  | some p =>
    show readPermissions (("    permissions: ".toList ++ '"' :: (p.toList ++ ['"'])) :: _) = _
    rw [readPermissions, after_append]
    dsimp only
    rw [(Scalar.double (hp p rfl)).read]
    rfl

/-- Lines that end the scalar before them. -/
def Ends (ls : List Line) : Prop := ∃ next rest, ls = next :: rest ∧ Dedents 4 ([] :: ls) next rest

theorem ends_lines (e : Entry) (ls : List Line) : Ends (e.lines ++ ls) := by
  have hhead : "  - path: ".toList ++ e.path.toList =
      pad 2 ++ '-' :: (" path: ".toList ++ e.path.toList) := rfl
  refine ⟨_, _, rfl, ⟨1, rfl⟩, ?_, ?_⟩
  · rw [hhead, isBlank_pad]
    rfl
  · rw [hhead, indentation_pad]
    exact show 2 ≤ 4 by decide

theorem ends_entries (entries : List Entry) (ls : List Line) :
    Ends (entries.flatMap Entry.lines ++ "runcmd:".toList :: ls) := by
  cases entries with
  | nil => exact ⟨_, _, rfl, ⟨1, rfl⟩, by decide, by decide⟩
  | cons e entries =>
    rw [List.flatMap_cons, List.append_assoc]
    exact ends_lines e _

theorem readFile_lines (hpath : IsPlain e.path.toList)
    (hp : ∀ p ∈ e.permissions, '"' ∉ p.toList ∧ '\\' ∉ p.toList) (hf : e.Writes f)
    (hls : Ends ls) : readFile (e.lines ++ ls) = some (f, ls) := by
  obtain ⟨next, rest, rfl, ht⟩ := hls
  have hlines : e.lines ++ next :: rest = ("  - path: ".toList ++ e.path.toList) ::
      ((e.permissions.map fun p => "    permissions: ".toList ++
        '"' :: (p.toList ++ ['"'])).toList ++ "    content: |".toList ::
          (e.body ++ [] :: next :: rest)) := by
    simp only [Entry.lines, fileHead, List.cons_append, List.append_assoc, List.nil_append]
  rw [hlines, readFile, after_append]
  simp only [Option.bind_eq_bind, Option.bind_some, scalar_plain hpath, readPermissions_head _ hp,
    marker_cons, hf.content.read ht]
  rw [← hf.path, ← hf.permissions]

theorem readFiles_entries {entries : List Entry} {files : List File}
    (hfiles : List.Forall₂ Entry.Writes entries files)
    (hpaths : ∀ e ∈ entries, IsPlain e.path.toList)
    (hp : ∀ e ∈ entries, ∀ p ∈ e.permissions, '"' ∉ p.toList ∧ '\\' ∉ p.toList) (fuel : Nat) :
    readFiles (entries.length + (fuel + 1))
      (entries.flatMap Entry.lines ++ "runcmd:".toList :: ls) = some (files, ls) := by
  induction hfiles with
  | nil =>
    rw [List.length_nil, Nat.zero_add, readFiles, List.flatMap_nil, List.nil_append, marker_cons]
  | @cons e f entries files hf _ ih =>
    obtain ⟨hpath, hpaths⟩ := List.forall_mem_cons.1 hpaths
    obtain ⟨hpe, hp⟩ := List.forall_mem_cons.1 hp
    have hmarker : ∀ ls, marker "runcmd:" (e.lines ++ ls) = none := by
      intro ls
      rw [Entry.lines, fileHead, List.cons_append, List.cons_append, marker, if_neg fun h => ?_]
      have hprefix : "  - path: ".toList <+: "runcmd:".toList := ⟨e.path.toList, h⟩
      exact absurd hprefix (by decide)
    rw [List.length_cons, Nat.add_right_comm, readFiles, List.flatMap_cons, List.append_assoc,
      hmarker, readFile_lines hpath hpe hf (ends_entries entries ls)]
    dsimp only [Option.bind_some]
    rw [ih hpaths hp]
    rfl

theorem readCommands_cons {c d : List Char} (hc : Scalar c d) (ls : List Line) :
    readCommands (("  - ".toList ++ c) :: ls) = (readCommands ls).map (d :: ·) := by
  have hblank : isBlank ("  - ".toList ++ c) = false := rfl
  rw [readCommands, hblank]
  simp only [Bool.false_eq_true, if_false, after_append, Option.bind_eq_bind, Option.bind_some,
    hc.read]
  exact Option.map_eq_bind.symm

theorem readCommands_items {items commands : List (List Char)}
    (h : List.Forall₂ Scalar items commands) :
    readCommands (items.map ("  - ".toList ++ ·) ++ [[]]) = some commands := by
  induction h with
  | nil => rfl
  | cons hc _ ih =>
    rw [List.map_cons, List.cons_append, readCommands_cons hc, ih]
    rfl

theorem splitOn_text {ls : List Line} (h : ∀ l ∈ ls, Printable l) :
    (ls.flatMap (· ++ ['\n'])).splitOn '\n' = ls ++ [[]] := by
  have hsplit : ∀ l ∈ ls, l.splitOn '\n' = [l] := fun l hl =>
    List.splitOn_eq_singleton fun hn => absurd (h l hl _ hn) (by decide)
  rw [splitOn_lines, List.flatMap_congr hsplit, List.flatMap_singleton']

theorem documentLines_text {d : Document} (h : d.Plain) :
    documentLines d.text = some (d.lines ++ [[]]) := by
  have hsplit := splitOn_text h.printable
  have hprintable : ∀ l ∈ d.text.splitOn '\n', Printable l := by
    rw [Document.text, hsplit]
    exact List.forall_mem_append.2 ⟨h.printable, by decide⟩
  rw [documentLines_of_printable hprintable, Document.text, hsplit]

theorem length_entries (entries : List Entry) :
    entries.length ≤ (entries.flatMap Entry.lines).length := by
  induction entries with
  | nil => exact Nat.zero_le _
  | cons e entries ih =>
    have hone : 1 ≤ e.lines.length := Nat.le_add_left 1 _
    rw [List.flatMap_cons, List.length_append, List.length_cons]
    omega

theorem read_document (d : Document) (u : UserData) (h : d.Plain)
    (hfiles : List.Forall₂ Entry.Writes d.entries u.files)
    (hitems : List.Forall₂ Scalar d.items u.commands) : read d.text = some u := by
  have hlines : d.lines ++ [[]] = "#cloud-config".toList :: [] :: "write_files:".toList ::
      (d.entries.flatMap Entry.lines ++
        "runcmd:".toList :: (d.items.map ("  - ".toList ++ ·) ++ [[]])) := by
    simp only [Document.lines, List.cons_append, List.append_assoc]
  have hskip : ∀ ls : List Line, ([] :: "write_files:".toList :: ls).dropWhile isBlank =
      "write_files:".toList :: ls := fun _ => rfl
  obtain ⟨fuel, hfuel⟩ : ∃ fuel, (d.entries.flatMap Entry.lines ++
      "runcmd:".toList :: (d.items.map ("  - ".toList ++ ·) ++ [[]])).length =
        d.entries.length + (fuel + 1) := by
    have hlength := length_entries d.entries
    refine ⟨(d.entries.flatMap Entry.lines).length - d.entries.length +
      (d.items.map ("  - ".toList ++ ·) ++ [[]]).length, ?_⟩
    rw [List.length_append, List.length_cons]
    omega
  rw [read, documentLines_text h, hlines]
  simp only [Option.bind_eq_bind, Option.bind_some, marker_cons, hskip, hfuel,
    readFiles_entries hfiles h.paths h.permissions, readCommands_items hitems]

/-! A text that is read is that of a scalar among the lines. -/

theorem after_suffix (h : after key ls = some (t, ls')) : ls' <:+ ls := by
  cases ls with
  | nil => cases h
  | cons l ls =>
    rw [after] at h
    split at h
    · cases h
      exact List.suffix_cons _ _
    · cases h

theorem marker_suffix (h : marker key ls = some ls') : ls' <:+ ls := by
  cases ls with
  | nil => cases h
  | cons l ls =>
    rw [marker] at h
    split at h
    · cases h
      exact List.suffix_cons _ _
    · cases h

theorem readPermissions_suffix {p : Option (List Char)}
    (h : readPermissions ls = some (p, ls')) : ls' <:+ ls := by
  unfold readPermissions at h
  split at h
  · cases h
    exact List.suffix_rfl
  · next hafter =>
      obtain ⟨_, -, hq⟩ := Option.map_eq_some_iff.1 h
      cases hq
      exact after_suffix hafter

theorem literal_suffix (h : literal 4 ls = some (t, ls')) : ls' <:+ ls := by
  rw [literal] at h
  split at h
  · cases h
    exact List.nil_suffix
  dsimp only at h
  split at h
  · cases h
    exact List.dropWhile_suffix _
  split at h
  · cases h
  split at h
  · cases h
    exact List.nil_suffix
  · next hrest =>
      split at h
      · cases h
      · cases h
        rw [← hrest]
        exact List.dropWhile_suffix _

theorem readFile_unindented (hlines : ∀ l ∈ ls, '\n' ∉ l) (h : readFile ls = some (f, ls')) :
    Unindented f.content ∧ ls' <:+ ls := by
  simp only [readFile, Option.bind_eq_bind, Option.bind_eq_some_iff] at h
  obtain ⟨⟨_, ls₁⟩, h₁, _, -, ⟨_, ls₂⟩, h₂, ls₃, h₃, ⟨_, ls₄⟩, h₄, hf⟩ := h
  cases hf
  have hsuffix := (marker_suffix h₃).trans ((readPermissions_suffix h₂).trans (after_suffix h₁))
  exact ⟨literal_unindented (fun l hl => hlines l (hsuffix.subset hl)) h₄,
    (literal_suffix h₄).trans hsuffix⟩

theorem readFiles_unindented {fuel : Nat} {files : List File} (hlines : ∀ l ∈ ls, '\n' ∉ l)
    (h : readFiles fuel ls = some (files, ls')) : ∀ f ∈ files, Unindented f.content := by
  induction fuel generalizing ls files with
  | zero => cases h
  | succ fuel ih =>
    rw [readFiles] at h
    split at h
    · cases h
      exact fun f hf => absurd hf List.not_mem_nil
    · obtain ⟨⟨f, rest⟩, hfile, h⟩ := Option.bind_eq_some_iff.1 h
      obtain ⟨⟨files, _⟩, hfiles, hq⟩ := Option.map_eq_some_iff.1 h
      cases hq
      obtain ⟨hf, hsuffix⟩ := readFile_unindented hlines hfile
      exact List.forall_mem_cons.2 ⟨hf, ih (fun l hl => hlines l (hsuffix.subset hl)) hfiles⟩

theorem read_unindented {cs : List Char} {u : UserData} (h : read cs = some u) :
    ∀ f ∈ u.files, Unindented f.content := by
  simp only [read, Option.bind_eq_bind, Option.bind_eq_some_iff] at h
  obtain ⟨ls, hdocument, ls₁, h₁, ls₂, h₂, ⟨files, ls₃⟩, hfiles, commands, -, hu⟩ := h
  cases hu
  have hlines : ∀ l ∈ ls, '\n' ∉ l := by
    unfold documentLines at hdocument
    split at hdocument
    · cases hdocument
      exact fun l hl => Text.not_mem_of_mem_splitOn hl
    · cases hdocument
  have hsuffix := (marker_suffix h₂).trans ((List.dropWhile_suffix _).trans (marker_suffix h₁))
  exact readFiles_unindented (fun l hl => hlines l (hsuffix.subset hl)) hfiles

end

theorem reads_read : Reads read where
  document := read_document
  unindented _ _ _ := read_unindented

end CloudInit

/-- A line of the file; empty lines and comments set nothing. -/
def envFileLine (l : List Char) : Option (List (List Char × List Char)) :=
  if l = [] ∨ l.head? = some '#' then some []
  else
    match l.dropWhile (· ≠ '=') with
    | [] => none
    | _ :: value => some [(l.takeWhile (· ≠ '='), value)]

def envFileLines : List (List Char) → Option (List (List Char × List Char))
  | [] => some []
  | l :: ls => do
    let e ← envFileLine l
    let es ← envFileLines ls
    some (e ++ es)

def envFile (t : List Char) : Option (List (List Char × List Char)) :=
  envFileLines (t.splitOn '\n')

section
variable {name value : List Char}

theorem envName_char (h : isEnvName name = true) :
    ∀ c ∈ name, c ≠ '=' ∧ c ≠ '#' ∧ isPrintable c = true := by
  intro c hc
  have hrange := of_decide_eq_true (List.all_eq_true.1 (of_decide_eq_true h).2 c hc)
  rcases hrange with hcapital | rfl
  · refine ⟨?_, ?_, decide_eq_true (.inr (.inl (by omega)))⟩ <;>
      rintro rfl <;> exact absurd hcapital.1 (by decide)
  · decide

theorem envFileLine_value (h : isEnvName name = true) :
    envFileLine (name ++ '=' :: value) = some [(name, value)] := by
  have hchar := envName_char h
  have heq : ∀ c ∈ name, decide (c ≠ '=') = true := fun c hc => decide_eq_true (hchar c hc).1
  have hstart : ¬ (name ++ '=' :: value = [] ∨ (name ++ '=' :: value).head? = some '#') := by
    obtain ⟨c, name, rfl⟩ := List.exists_cons_of_ne_nil (of_decide_eq_true h).1
    rintro (h | h)
    · cases h
    · exact (hchar c List.mem_cons_self).2.1 (Option.some.inj h)
  have hnext := Hcl.takeWhile_stop (v := value) heq (by decide : decide ('=' ≠ '=') = false)
  have hrest := Hcl.dropWhile_stop (v := value) heq (by decide : decide ('=' ≠ '=') = false)
  rw [envFileLine, if_neg hstart, hnext, hrest]

theorem envFileLines_pairs {env : List (List Char × List Char)}
    (hnames : ∀ q ∈ env, isEnvName q.1 = true) :
    envFileLines (env.map (fun q => q.1 ++ '=' :: q.2) ++ [[]]) = some env := by
  induction env with
  | nil => rfl
  | cons q env ih =>
    obtain ⟨hq, hnames⟩ := List.forall_mem_cons.1 hnames
    rw [List.map_cons, List.cons_append, envFileLines, envFileLine_value hq, ih hnames]
    rfl

end

def readers : Readers := ⟨CloudInit.read, envFile⟩

theorem documented_readers : readers.Documented where
  userData := reads_read
  envFile env henv := by
    have hprintable : ∀ l ∈ env.map fun q => q.1 ++ '=' :: q.2, Printable l :=
      List.forall_mem_map.2 fun q hq => printable_append.2
        ⟨fun c hc => (envName_char (henv q hq).1 c hc).2.2,
          printable_cons.2 ⟨by decide, (henv q hq).2⟩⟩
    show envFileLines ((envLines env).splitOn '\n') = some env
    rw [envLines, splitOn_text hprintable]
    exact envFileLines_pairs fun q hq => (henv q hq).1

end GrillPlatform
