import GrillPlatform.Aggregation
import GrillPlatform.Text.Cut

/-! The benchmark payload as the runner writes it: one serialized record a line. `splitlines` ends a
line at three characters that JSON leaves as they are in a string. -/

namespace GrillPlatform
open Text

/-- What the runner uses of pydantic for the records of the benchmark. -/
structure RecordFormat (L : LlmGrill) where
  modelDumpJson : L.RequestMetrics → String
  strings : L.RequestMetrics → List String
  /-- All numbers of the record are finite. -/
  finite : L.RequestMetrics → Prop

/-- A record is written as one object without control characters, with its strings verbatim beyond
ASCII, and is read back. -/
structure RecordFormat.Documented {L : LlmGrill} (F : RecordFormat L) : Prop where
  inverse : ∀ r, F.finite r → L.modelValidateJson (F.modelDumpJson r) = .ok r
  object : ∀ r, ∃ fields, (F.modelDumpJson r).toList = '\x7b' :: fields ++ ['\x7d']
  printable : ∀ r, ∀ c ∈ (F.modelDumpJson r).toList, 0x20 ≤ c.toNat
  verbatim : ∀ r c, 0x80 ≤ c.toNat →
    (c ∈ (F.modelDumpJson r).toList ↔ ∃ s ∈ F.strings r, c ∈ s.toList)

def isShown (line : String) : Bool := line.toList.any (!isSpace ·)

/-- The line boundaries that JSON does not escape. -/
def isUnescapedBoundary (c : Char) : Bool := c.toNat ∈ [0x85, 0x2028, 0x2029]

theorem isSpace_of_isLineBoundary {c : Char} (h : isLineBoundary c = true) :
    (!isSpace c) = false := by
  simp [isLineBoundary, isSpace] at h ⊢
  omega

theorem isLineBoundary_iff {c : Char} (h : 0x20 ≤ c.toNat) :
    isLineBoundary c = isUnescapedBoundary c := by
  rw [Bool.eq_iff_iff]
  simp [isLineBoundary, isUnescapedBoundary]
  omega

theorem shown_splitlinesFrom (line cs : List Char) :
    (splitlinesFrom line cs).filter (·.any (!isSpace ·)) =
      (List.splitOnPPrepend isLineBoundary cs line).filter (·.any (!isSpace ·)) := by
  fun_induction splitlinesFrom line cs with
  | case1 => rfl
  | case2 line => rfl
  | case3 line cs ih =>
    rw [List.splitOnPPrepend_cons_pos (by decide), ← List.splitOnPPrepend_nil_right,
      List.splitOnPPrepend_cons_pos (by decide), List.filter_cons, ih, List.filter_cons,
      List.filter_cons]
    simp
  | case4 line c cs hne h ih =>
    rw [List.splitOnPPrepend_cons_pos h, List.filter_cons, ih, List.filter_cons,
      List.splitOnPPrepend_nil_right]
  | case5 line c cs hne h ih =>
    rw [List.splitOnPPrepend_cons_neg (eq_false_of_ne_true h), ih]

/-- The pieces of a text that `parse` goes through. -/
noncomputable def shownLines (s : String) : List (List Char) :=
  shown isLineBoundary (!isSpace ·) s.toList

theorem filter_splitlines (s : String) :
    (splitlines s).filter isShown = (shownLines s).map String.ofList := by
  have hcomp : isShown ∘ String.ofList = fun cs : List Char => cs.any (!isSpace ·) := by
    funext cs
    simp [isShown]
  rw [splitlines, List.filter_map, hcomp, shown_splitlinesFrom]
  rfl

theorem parse_eq (L : LlmGrill) (s : String) :
    parse L s = ((shownLines s).map String.ofList).mapM L.modelValidateJson := by
  rw [← filter_splitlines]
  rfl

theorem shownLines_join (lines : List String) :
    shownLines (String.intercalate "\n" lines) = lines.flatMap shownLines := by
  induction lines with
  | nil => rfl
  | cons line rest ih =>
    cases rest with
    | nil => simp
    | cons next rest =>
      rw [List.flatMap_cons, ← ih, String.intercalate_cons_cons, shownLines, String.toList_append,
        String.toList_append, List.append_assoc]
      exact shown_cut (by decide)

theorem shownLines_blank {line : String} (h : isShown line = false) : shownLines line = [] :=
  shown_blank fun c hc => List.any_eq_false.1 h c hc |> eq_false_of_ne_true

theorem flatMap_shownLines (lines : List String) :
    lines.flatMap shownLines = (lines.filter isShown).flatMap shownLines := by
  induction lines with
  | nil => rfl
  | cons line rest ih =>
    rw [List.flatMap_cons, ih, List.filter_cons]
    split
    · rw [List.flatMap_cons]
    · rename_i h
      rw [shownLines_blank (eq_false_of_ne_true h), List.nil_append]

theorem length_mapM {α β : Type} {f : α → Except Exc β} {xs : List α} {ys : List β}
    (h : xs.mapM f = .ok ys) : ys.length = xs.length := by
  induction xs generalizing ys with
  | nil =>
    cases h
    rfl
  | cons x xs ih =>
    rw [List.mapM_cons] at h
    obtain ⟨y, -, h⟩ := exceptBind_ok h
    obtain ⟨zs, hzs, h⟩ := exceptBind_ok h
    cases h
    rw [List.length_cons, List.length_cons, ih hzs]

theorem mapM_map_ok {α β : Type} {f : α → Except Exc β} {g : β → α} {ys : List β}
    (h : ∀ y ∈ ys, f (g y) = .ok y) : (ys.map g).mapM f = .ok ys := by
  induction ys with
  | nil => rfl
  | cons y ys ih =>
    rw [List.map_cons, List.mapM_cons, h y List.mem_cons_self,
      ih fun z hz => h z (List.mem_cons_of_mem y hz)]
    rfl

/-- Where every element contributes something and there are as many contributions as elements, each
contributes one. -/
theorem length_eq_one_of_flatMap {α β : Type} {g : α → List β} {xs : List α}
    (hg : ∀ x ∈ xs, g x ≠ []) (h : (xs.flatMap g).length = xs.length) :
    ∀ x ∈ xs, (g x).length = 1 := by
  have hle : ∀ ys : List α, (∀ x ∈ ys, g x ≠ []) → ys.length ≤ (ys.flatMap g).length := by
    intro ys hys
    induction ys with
    | nil => exact Nat.le_refl 0
    | cons y ys ih =>
      have hy := List.length_pos_iff.2 (hys y List.mem_cons_self)
      have hrest := ih fun x hx => hys x (List.mem_cons_of_mem y hx)
      rw [List.flatMap_cons, List.length_append, List.length_cons]
      omega
  induction xs with
  | nil => exact fun x hx => absurd hx List.not_mem_nil
  | cons y ys ih =>
    have hy := List.length_pos_iff.2 (hg y List.mem_cons_self)
    have hys : ∀ x ∈ ys, g x ≠ [] := fun x hx => hg x (List.mem_cons_of_mem y hx)
    have hrest := hle ys hys
    rw [List.flatMap_cons, List.length_append, List.length_cons] at h
    intro x hx
    rcases List.mem_cons.1 hx with rfl | hx
    · omega
    · exact ih hys (by omega) x hx

section
variable {L : LlmGrill} {F : RecordFormat L}

theorem brace_shown : (!isSpace '\x7b') = true ∧ (!isSpace '\x7d') = true := by decide

theorem isShown_dump (hF : F.Documented) (r : L.RequestMetrics) :
    ∃ c ∈ (F.modelDumpJson r).toList, (!isSpace c) = true := by
  obtain ⟨fields, hr⟩ := hF.object r
  exact ⟨'\x7b', hr ▸ List.mem_cons_self, brace_shown.1⟩

theorem shownLines_dump_ne_nil (hF : F.Documented) (r : L.RequestMetrics) :
    shownLines (F.modelDumpJson r) ≠ [] :=
  shown_ne_nil (fun _ => isSpace_of_isLineBoundary) (isShown_dump hF r)

theorem shownLines_dump (hF : F.Documented) {r : L.RequestMetrics}
    (h : ∀ c ∈ (F.modelDumpJson r).toList, isUnescapedBoundary c = false) :
    shownLines (F.modelDumpJson r) = [(F.modelDumpJson r).toList] :=
  shown_singleton (fun c hc => (isLineBoundary_iff (hF.printable r c hc)).trans (h c hc))
    (isShown_dump hF r)

theorem two_le_shownLines_dump (hF : F.Documented) {r : L.RequestMetrics} {c : Char}
    (hc : c ∈ (F.modelDumpJson r).toList) (hb : isUnescapedBoundary c = true) :
    2 ≤ (shownLines (F.modelDumpJson r)).length := by
  have hcut : isLineBoundary c = true := (isLineBoundary_iff (hF.printable r c hc)).trans hb
  obtain ⟨fields, hr⟩ := hF.object r
  have hopen : c ≠ '\x7b' := by
    rintro rfl
    exact absurd hb (by decide)
  have hclose : c ≠ '\x7d' := by
    rintro rfl
    exact absurd hb (by decide)
  obtain ⟨u, v, rfl⟩ : ∃ u v, fields = u ++ c :: v := by
    rw [hr, List.cons_append, List.mem_cons, List.mem_append, List.mem_singleton] at hc
    rcases hc with h | h | h
    · exact absurd h hopen
    · exact List.append_of_mem h
    · exact absurd h hclose
  have hleft : shown isLineBoundary (!isSpace ·) ('\x7b' :: u) ≠ [] :=
    shown_ne_nil (fun _ => isSpace_of_isLineBoundary) ⟨_, List.mem_cons_self, brace_shown.1⟩
  have hright : shown isLineBoundary (!isSpace ·) (v ++ ['\x7d']) ≠ [] :=
    shown_ne_nil (fun _ => isSpace_of_isLineBoundary)
      ⟨_, List.mem_append_right _ List.mem_cons_self, brace_shown.2⟩
  have hlen := List.length_pos_iff.2 hleft
  have hlen' := List.length_pos_iff.2 hright
  rw [shownLines, hr, show '\x7b' :: (u ++ c :: v) ++ ['\x7d'] = '\x7b' :: u ++ c :: (v ++ ['\x7d'])
    by simp, shown_cut hcut, List.length_append]
  omega

/-- A record is written without an unescaped boundary exactly when no string of it has one. -/
theorem dump_unbroken_iff (hF : F.Documented) (r : L.RequestMetrics) :
    (∀ c ∈ (F.modelDumpJson r).toList, isUnescapedBoundary c = false) ↔
      ∀ s ∈ F.strings r, ∀ c ∈ s.toList, isUnescapedBoundary c = false := by
  have hbeyond : ∀ c, isUnescapedBoundary c = true → 0x80 ≤ c.toNat := by
    intro c h
    simp [isUnescapedBoundary] at h
    omega
  constructor
  · intro h s hs c hc
    by_contra hb
    have hb := eq_true_of_ne_false hb
    rw [h c ((hF.verbatim r c (hbeyond c hb)).2 ⟨s, hs, hc⟩)] at hb
    cases hb
  · intro h c hc
    by_contra hb
    have hb := eq_true_of_ne_false hb
    obtain ⟨s, hs, hcs⟩ := (hF.verbatim r c (hbeyond c hb)).1 hc
    rw [h s hs c hcs] at hb
    cases hb

/-- The lines of a payload, blank ones aside, are the records, and each comes back, exactly when no
string of them has a line boundary that JSON leaves unescaped. -/
theorem parse_lines_iff (hF : F.Documented) {records : List L.RequestMetrics}
    (hfin : ∀ r ∈ records, F.finite r) {lines : List String}
    (hlines : lines.filter isShown = records.map F.modelDumpJson) :
    parse L (String.intercalate "\n" lines) = .ok records ↔
      ∀ r ∈ records, ∀ s ∈ F.strings r, ∀ c ∈ s.toList, isUnescapedBoundary c = false := by
  rw [parse_eq, shownLines_join, flatMap_shownLines, hlines, List.flatMap_map]
  constructor
  · intro h r hr
    rw [← dump_unbroken_iff hF]
    have hlen := length_mapM h
    rw [List.length_map] at hlen
    have hone := length_eq_one_of_flatMap (fun x _ => shownLines_dump_ne_nil hF x) hlen.symm r hr
    intro c hc
    by_contra hb
    have htwo := two_le_shownLines_dump hF hc (eq_true_of_ne_false hb)
    omega
  · intro h
    have hpieces : ∀ r ∈ records, shownLines (F.modelDumpJson r) = [(F.modelDumpJson r).toList] :=
      fun r hr => shownLines_dump hF ((dump_unbroken_iff hF r).2 (h r hr))
    have hflat : records.flatMap (fun r => shownLines (F.modelDumpJson r)) =
        records.map fun r => (F.modelDumpJson r).toList := by
      rw [← List.flatMap_singleton' (records.map _), List.flatMap_map]
      exact List.flatMap_congr hpieces
    rw [hflat, List.map_map]
    refine mapM_map_ok fun r hr => ?_
    simp only [Function.comp_apply, String.ofList_toList]
    exact hF.inverse r (hfin r hr)

end

/-! ## Records of one string field -/

namespace Sample

/-- The text of the field `s`, without characters that have to be escaped as control characters. -/
def Record : Type := { cs : List Char // cs.all (0x20 ≤ ·.toNat) = true }

def opening : List Char := ['\x7b', '"', 's', '"', ':', '"']
def closing : List Char := ['"', '\x7d']

def dumped (r : Record) : List Char := opening ++ (r.1 ++ closing)

def modelValidateJson (line : String) : Except Exc Record :=
  let cs := (line.toList.drop 6).dropLast.dropLast
  if h : cs.all (0x20 ≤ ·.toNat) = true then
    if dumped ⟨cs, h⟩ = line.toList then .ok ⟨cs, h⟩ else .error (.valueError "ValidationError")
  else .error (.valueError "ValidationError")

def recorded : LlmGrill where
  RequestMetrics := Record
  modelValidateJson := modelValidateJson
  concurrentUsersLevel _ := 1
  estimateTotalDuration _ := .ok 0
  aggregate rs _ := .ok ⟨"load", rs.length, rs.length, 0, 0, 0, 0, 0, 0, 0, 0, 0, 0, 0, 0⟩

def recordFormat : RecordFormat recorded where
  modelDumpJson r := String.ofList (dumped r)
  strings r := [String.ofList r.1]
  finite _ := True

theorem toList_dump (r : Record) : (String.ofList (dumped r)).toList = dumped r :=
  String.toList_ofList

theorem modelValidateJson_dumped (r : Record) :
    modelValidateJson (String.ofList (dumped r)) = .ok r := by
  have hcs : ((dumped r).drop 6).dropLast.dropLast = r.1 := by
    simp [dumped, opening, closing]
  unfold modelValidateJson
  simp only [toList_dump, hcs]
  rw [dif_pos r.2]
  exact if_pos rfl

theorem object_dump (r : Record) :
    ∃ fields, (String.ofList (dumped r)).toList = '\x7b' :: fields ++ ['\x7d'] :=
  ⟨['"', 's', '"', ':', '"'] ++ (r.1 ++ ['"']), by simp [dumped, opening, closing]⟩

theorem printable_dump (r : Record) : ∀ c ∈ (String.ofList (dumped r)).toList, 0x20 ≤ c.toNat := by
  intro c hc
  have hall : (dumped r).all (0x20 ≤ ·.toNat) = true := by
    have hopen : opening.all (0x20 ≤ ·.toNat) = true := by decide
    have hclose : closing.all (0x20 ≤ ·.toNat) = true := by decide
    rw [dumped, List.all_append, List.all_append, hopen, r.2, hclose]
    rfl
  rw [toList_dump] at hc
  exact of_decide_eq_true (List.all_eq_true.1 hall c hc)

theorem verbatim_dump (r : Record) (c : Char) (hc : 0x80 ≤ c.toNat) :
    c ∈ (String.ofList (dumped r)).toList ↔ ∃ s ∈ [String.ofList r.1], c ∈ s.toList := by
  have hascii : (opening ++ closing).all (¬ 0x80 ≤ ·.toNat) = true := by decide
  have hopen : c ∉ opening := fun h =>
    of_decide_eq_true (List.all_eq_true.1 hascii c (List.mem_append_left _ h)) hc
  have hclose : c ∉ closing := fun h =>
    of_decide_eq_true (List.all_eq_true.1 hascii c (List.mem_append_right _ h)) hc
  rw [toList_dump]
  simp [dumped, hopen, hclose]

theorem recordFormat_documented : recordFormat.Documented where
  inverse r _ := modelValidateJson_dumped r
  object := object_dump
  printable := printable_dump
  verbatim := verbatim_dump

/-- A record whose field is the character with the code `n`. -/
def record (n : Nat) (h : [Char.ofNat n].all (0x20 ≤ ·.toNat) = true) : Record :=
  ⟨[Char.ofNat n], h⟩

end Sample

theorem parse_lines_of_plain :
    let records := [Sample.record 0x61 (by decide), Sample.record 0xe9 (by decide)]
    let lines := ["", Sample.recordFormat.modelDumpJson (Sample.record 0x61 (by decide)), " \t",
      Sample.recordFormat.modelDumpJson (Sample.record 0xe9 (by decide)), ""]
    parse Sample.recorded (String.intercalate "\n" lines) = .ok records := by
  intro records lines
  have hplain : records.all (·.1.all (!isUnescapedBoundary ·)) = true := by decide
  refine (parse_lines_iff Sample.recordFormat_documented (fun _ _ => trivial) (by decide)).2 ?_
  intro r hr s hs c hc
  obtain rfl := List.mem_singleton.1 hs
  rw [String.toList_ofList] at hc
  have hr := List.all_eq_true.1 (List.all_eq_true.1 hplain r hr) c hc
  rwa [Bool.not_eq_true'] at hr

/-- A record with a line separator in a string is read as two broken lines. -/
theorem parse_lines_broken :
    ¬ ∀ (L : LlmGrill) (F : RecordFormat L) (records : List L.RequestMetrics)
    (lines : List String), F.Documented → (∀ r ∈ records, F.finite r) →
    lines.filter isShown = records.map F.modelDumpJson →
    parse L (String.intercalate "\n" lines) = .ok records := by
  intro h
  have hr := h Sample.recorded Sample.recordFormat [Sample.record 0x2028 (by decide)]
    [Sample.recordFormat.modelDumpJson (Sample.record 0x2028 (by decide))]
    Sample.recordFormat_documented (fun _ _ => trivial) (by decide)
  have hok : (parse Sample.recorded (String.intercalate "\n"
    [Sample.recordFormat.modelDumpJson (Sample.record 0x2028 (by decide))])).isOk =
    false := by decide
  rw [hr] at hok
  cases hok

end GrillPlatform
