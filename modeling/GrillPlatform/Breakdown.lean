import GrillPlatform.Aggregation
import GrillPlatform.Seq.StableSort

/-! The breakdown of a payload by concurrency level. -/

namespace GrillPlatform
open Seq

section
variable {α : Type} {key : α → Int} {xs : List α}

/-- The groups of a list: one for every key, with the keys ascending. -/
structure Grouped (key : α → Int) (xs : List α) (groups : List (Int × List α)) : Prop where
  increasing : (groups.map (·.1)).Pairwise (· < ·)
  mem : ∀ k, k ∈ groups.map (·.1) ↔ ∃ x ∈ xs, key x = k
  group : ∀ g ∈ groups, g.2 = xs.filter fun x => key x = g.1

theorem groupby_eq_nil (h : groupby key xs = []) : xs = [] := by
  cases xs with
  | nil => rfl
  | cons x xs =>
    rw [groupby] at h
    split at h
    · cases h
    · split at h <;> cases h

theorem groupby_flatten (xs : List α) : ((groupby key xs).map (·.2)).flatten = xs := by
  induction xs with
  | nil => rfl
  | cons x xs ih =>
    rw [groupby]
    split
    · rename_i h
      rw [groupby_eq_nil h]
      rfl
    · rename_i k g rest h
      rw [h] at ih
      split
      · rw [List.map_cons, List.flatten_cons, List.cons_append, ← List.flatten_cons]
        exact congrArg (x :: ·) ih
      · rw [List.map_cons, List.flatten_cons, List.singleton_append]
        exact congrArg (x :: ·) ih

section
variable {x : α} {k : Int} {g : List α} {rest : List (Int × List α)}

theorem filter_cons_other {k' : Int} (h : key x ≠ k') :
    ((x :: xs).filter fun y => key y = k') = xs.filter fun y => key y = k' :=
  List.filter_cons_of_neg (by simpa using h)

theorem grouped_cons_same (hk : key x = k) (h : Grouped key xs ((k, g) :: rest)) :
    Grouped key (x :: xs) ((k, x :: g) :: rest) where
  increasing := h.increasing
  mem k' := by
    have hmem := h.mem k'
    simp only [List.map_cons, List.mem_cons, exists_eq_or_imp] at hmem ⊢
    rw [hmem, hk]
    constructor
    · exact .inr
    · rintro (rfl | hy)
      · exact hmem.1 (.inl rfl)
      · exact hy
  group := by
    obtain ⟨hfirst, -⟩ := List.pairwise_cons.1 h.increasing
    obtain ⟨hg, hrest⟩ := List.forall_mem_cons.1 h.group
    refine List.forall_mem_cons.2 ⟨?_, fun g' hg' => ?_⟩
    · rw [List.filter_cons_of_pos (by simpa using hk)]
      exact congrArg (x :: ·) hg
    · have hlt : k < g'.1 := hfirst _ (List.mem_map_of_mem hg')
      rw [filter_cons_other (hk ▸ hlt.ne)]
      exact hrest g' hg'

theorem grouped_cons_new (hk : key x < k) (h : Grouped key xs ((k, g) :: rest)) :
    Grouped key (x :: xs) ((key x, [x]) :: (k, g) :: rest) := by
  obtain ⟨hfirst, -⟩ := List.pairwise_cons.1 h.increasing
  have hbefore : ∀ k' ∈ ((k, g) :: rest).map (·.1), key x < k' :=
    List.forall_mem_cons.2 ⟨hk, fun k' hk' => hk.trans (hfirst k' hk')⟩
  refine ⟨List.pairwise_cons.2 ⟨hbefore, h.increasing⟩, fun k' => ?_, ?_⟩
  · rw [List.map_cons, List.mem_cons, h.mem k']
    simp [eq_comm]
  · refine List.forall_mem_cons.2 ⟨?_, fun g' hg' => ?_⟩
    · have hnone : (xs.filter fun y => key y = key x) = [] := by
        refine List.filter_eq_nil_iff.2 fun y hy => ?_
        have hlt := hbefore (key y) ((h.mem _).2 ⟨y, hy, rfl⟩)
        simpa using hlt.ne'
      rw [List.filter_cons_of_pos (by simp), hnone]
    · rw [filter_cons_other (hbefore _ (List.mem_map_of_mem hg')).ne]
      exact h.group g' hg'

end

theorem grouped_groupby (h : xs.Pairwise fun a b => key a ≤ key b) :
    Grouped key xs (groupby key xs) := by
  induction xs with
  | nil => exact ⟨List.Pairwise.nil, by simp [groupby], by simp [groupby]⟩
  | cons x xs ih =>
    obtain ⟨hx, hxs⟩ := List.pairwise_cons.1 h
    obtain ⟨hinc, hmem, hgroup⟩ := ih hxs
    rw [groupby]
    split
    · rename_i hnil
      rw [groupby_eq_nil hnil]
      exact ⟨List.pairwise_singleton _ _, by simp [eq_comm], by simp⟩
    · rename_i k g rest hcons
      rw [hcons] at hinc hmem hgroup
      have hle : key x ≤ k := by
        obtain ⟨y, hy, rfl⟩ := (hmem k).1 List.mem_cons_self
        exact hx y hy
      split
      · rename_i hk
        exact grouped_cons_same hk ⟨hinc, hmem, hgroup⟩
      · rename_i hk
        exact grouped_cons_new (lt_of_le_of_ne hle hk) ⟨hinc, hmem, hgroup⟩

theorem Grouped.eq_map {groups : List (Int × List α)} (h : Grouped key xs groups) :
    groups = (groups.map (·.1)).map fun k => (k, xs.filter fun x => key x = k) := by
  rw [List.map_map]
  exact (List.map_id groups).symm.trans
    (List.map_congr_left fun g hg => Prod.ext rfl (h.group g hg))

end

theorem map_eq_of_forall₂ {α β γ : Type} {R : α → β → Prop} {f : α → γ} {g : β → γ} {xs : List α}
    {ys : List β} (h : List.Forall₂ R xs ys) (hR : ∀ x y, R x y → g y = f x) :
    ys.map g = xs.map f := by
  induction h with
  | nil => rfl
  | cons hxy _ ih => rw [List.map_cons, List.map_cons, hR _ _ hxy, ih]

theorem sum_map_cast {α : Type} (f : α → Nat) (xs : List α) :
    (xs.map fun x => (f x : Int)).sum = ((xs.map f).sum : Nat) := by
  induction xs with
  | nil => rfl
  | cons x xs ih =>
    rw [List.map_cons, List.sum_cons, ih, List.map_cons, List.sum_cons, Int.natCast_add]

/-! ## The levels of a payload -/

section
variable (L : LlmGrill) (records : List L.RequestMetrics)

/-- The levels that occur, ascending. -/
def levels : List Int :=
  (groupby L.concurrentUsersLevel (sortBy L.concurrentUsersLevel records)).map (·.1)

def slice (level : Int) : List L.RequestMetrics :=
  records.filter fun r => L.concurrentUsersLevel r = level

def levelEntry (level : Int) : Except Exc Json := do
  let m ← L.aggregate (slice L records level) (← L.estimateTotalDuration (slice L records level))
  return breakdownEntry level m

end

section
variable {L : LlmGrill} {records records' : List L.RequestMetrics} {jsonl : String}

theorem levels_increasing : (levels L records).Pairwise (· < ·) :=
  (grouped_groupby (sortBy_pairwise records)).increasing

theorem mem_levels {k : Int} :
    k ∈ levels L records ↔ ∃ r ∈ records, L.concurrentUsersLevel r = k := by
  rw [levels, (grouped_groupby (sortBy_pairwise records)).mem]
  simp only [(sortBy_perm records).mem_iff]

theorem groupby_eq : groupby L.concurrentUsersLevel (sortBy L.concurrentUsersLevel records) =
    (levels L records).map fun k => (k, slice L records k) := by
  rw [(grouped_groupby (sortBy_pairwise records)).eq_map, levels]
  exact List.map_congr_left fun k _ => congrArg (k, ·) (filter_sortBy k records)

theorem mem_levels_iff_slice {k : Int} : k ∈ levels L records ↔ slice L records k ≠ [] := by
  simp [mem_levels, slice, List.filter_eq_nil_iff]

theorem levels_congr (h : ∀ k, slice L records' k = slice L records k) :
    levels L records' = levels L records :=
  levels_increasing.eq_of_mem_iff levels_increasing fun k => by
    rw [mem_levels_iff_slice, mem_levels_iff_slice, h k]

/-- The slices partition the payload. -/
theorem sum_slices : ((levels L records).map fun k => (slice L records k).length).sum =
    records.length := by
  have hperm : (sortBy L.concurrentUsersLevel records).Perm records := sortBy_perm records
  have hpieces : ((groupby L.concurrentUsersLevel (sortBy L.concurrentUsersLevel records)).map
    (·.2)).flatten = sortBy L.concurrentUsersLevel records := groupby_flatten _
  rw [groupby_eq, List.map_map] at hpieces
  rw [← hperm.length_eq, ← hpieces, List.length_flatten, List.map_map]
  rfl

theorem aggregatePerConcurrency_eq (h : parse L jsonl = .ok records) :
    aggregatePerConcurrency L jsonl = (levels L records).mapM (levelEntry L records) := by
  rw [aggregatePerConcurrency, h]
  show (groupby L.concurrentUsersLevel (sortBy L.concurrentUsersLevel records)).mapM _ = _
  rw [groupby_eq, List.mapM_map]
  rfl

def nRequests (e : Json) : Int :=
  match e.get "n_requests" with
  | some (.int n) => n
  | _ => 0

/-- The package counts the records it is given. -/
def LlmGrill.Counts (L : LlmGrill) : Prop :=
  ∀ records duration m, L.aggregate records duration = .ok m → m.totalRequests = records.length

theorem levelEntry_ok {k : Int} {e : Json} (h : levelEntry L records k = .ok e) :
    e.get "concurrency" = some (.int k) ∧
      (L.Counts → nRequests e = (slice L records k).length) := by
  obtain ⟨duration, -, h⟩ := exceptBind_ok h
  obtain ⟨m, hm, h⟩ := exceptBind_ok h
  cases h
  exact ⟨rfl, fun hL => hL _ _ _ hm⟩

theorem aggregate_total (hL : L.Counts) (h : parse L jsonl = .ok records) {run : Run}
    {result : Result} (ha : aggregate L jsonl run = .ok result) :
    result.metrics.totalRequests = records.length := by
  obtain ⟨records', hp, ha⟩ := exceptBind_ok ha
  cases h.symm.trans hp
  obtain ⟨duration, -, ha⟩ := exceptBind_ok ha
  obtain ⟨m, hm, ha⟩ := exceptBind_ok ha
  cases ha
  exact hL _ _ _ hm

/-- The levels are the ones that occur, strictly ascending; each entry is made of the records of its
level in the order of the payload; the entries count all the requests; and nothing but the records
of each level matters. -/
theorem breakdown_partition (hL : L.Counts) (h : parse L jsonl = .ok records) :
    (levels L records).Pairwise (· < ·) ∧
    (∀ k, k ∈ levels L records ↔ ∃ r ∈ records, L.concurrentUsersLevel r = k) ∧
    aggregatePerConcurrency L jsonl = (levels L records).mapM (levelEntry L records) ∧
    (∀ entries, aggregatePerConcurrency L jsonl = .ok entries →
      entries.map (·.get "concurrency") = (levels L records).map (fun k => some (.int k)) ∧
      ∀ run result, aggregate L jsonl run = .ok result →
        (entries.map nRequests).sum = result.metrics.totalRequests) ∧
    ∀ jsonl' records', parse L jsonl' = .ok records' →
      (∀ k, slice L records' k = slice L records k) →
      aggregatePerConcurrency L jsonl' = aggregatePerConcurrency L jsonl := by
  refine ⟨levels_increasing, fun k => mem_levels, aggregatePerConcurrency_eq h, ?_, ?_⟩
  · intro entries hentries
    have hall := forall₂_of_mapM ((aggregatePerConcurrency_eq h).symm.trans hentries)
    refine ⟨map_eq_of_forall₂ hall fun k e he => (levelEntry_ok he).1, fun run result ha => ?_⟩
    have hcounts : entries.map nRequests =
        (levels L records).map fun k => ((slice L records k).length : Int) :=
      map_eq_of_forall₂ hall fun k e he => (levelEntry_ok he).2 hL
    rw [hcounts, aggregate_total hL h ha, ← sum_slices]
    exact sum_map_cast _ _
  · intro jsonl' records' h' hslices
    have hentry : levelEntry L records' = levelEntry L records := by
      funext k
      rw [levelEntry, levelEntry, hslices]
    rw [aggregatePerConcurrency_eq h', aggregatePerConcurrency_eq h, levels_congr hslices, hentry]

end

theorem parse_ofList (L : LlmGrill) (cs : List Char) : parse L (String.ofList cs) =
    ((splitlinesFrom [] cs).filter fun line => line.any (!isSpace ·)).mapM
      fun line => L.modelValidateJson (String.ofList line) := by
  rw [parse, splitlines, String.toList_ofList, List.filter_map, List.mapM_map]
  simp only [Function.comp_def, String.toList_ofList]

namespace Sample

def servedFields : List String :=
  ["\x7b\"scenario\":\"ramp.yaml\",", "\"target_server\":\"local\",", "\"target_model\":\"m\",",
    "\"conversation\":\"basic-prompt\",", "\"turn\":0,\"iteration\":0,\"user_id\":0,",
    "\"timestamp_start\":", "\"2026-05-22T14:00:00Z\",", "\"ttft_s\":0.05,\"tpot_s\":0.01,",
    "\"e2e_latency_s\":1.05,", "\"prompt_tokens\":41,", "\"completion_tokens\":109,",
    "\"tokens_per_second\":50.0,", "\"success\":true,", "\"concurrent_users_level\":"]

def answered (level : Char) : List Char := servedFields.flatMap String.toList ++ [level, '\x7d']

/-- The metrics of `n` such requests sent at once: 1.05 s, at these tokens and requests a second. -/
def servedMetrics (n : Nat) (tokens requests : PyFloat) : Metrics :=
  ⟨"ramp.yaml", n, n, 0, 0x3ff0000000000000, 0x3fa999999999999a, 0x3fa999999999999a,
    0x3fa999999999999a, 0x3f847ae147ae147b, 0x3ff0cccccccccccd, 0x3ff0cccccccccccd,
    0x4049000000000000, tokens, requests, 0x3ff0cccccccccccd⟩

/-- A package that knows these records at the levels 1 and 4, up to three of them. -/
def metered : LlmGrill where
  RequestMetrics := Int
  modelValidateJson line :=
    if line.toList = answered '1' then .ok 1
    else if line.toList = answered '4' then .ok 4
    else .error (.valueError "ValidationError")
  concurrentUsersLevel := id
  estimateTotalDuration rs := .ok (if rs = [] then 0 else 0x3ff0cccccccccccd)
  aggregate rs duration :=
    if duration = 0 then .error (.other "ZeroDivisionError")
    else match rs with
      | [_] => .ok (servedMetrics 1 0x4059f3cf3cf3cf3d 0x3fee79e79e79e79e)
      | [_, _] => .ok (servedMetrics 2 0x4069f3cf3cf3cf3d 0x3ffe79e79e79e79e)
      | [_, _, _] => .ok (servedMetrics 3 0x407376db6db6db6d 0x4006db6db6db6db7)
      | _ => .error (.valueError "more than three records")

def ramp : List Char := answered '4' ++ '\n' :: (answered '1' ++ '\n' :: answered '4')

def rampRecords : List metered.RequestMetrics := ([4, 1, 4] : List Int)

theorem answered_ne : answered '4' ≠ answered '1' := fun h => by
  cases List.append_cancel_left h

theorem parse_ramp : parse metered (String.ofList ramp) = .ok rampRecords := by
  have hlines : (splitlinesFrom [] ramp).filter (fun line => line.any (!isSpace ·)) =
      [answered '4', answered '1', answered '4'] := by decide +kernel
  rw [parse_ofList, hlines]
  simp [metered, answered_ne, rampRecords]
  rfl

end Sample

theorem breakdown_partition_of_ramp :
    levels Sample.metered Sample.rampRecords = [1, 4] ∧
      aggregatePerConcurrency Sample.metered (String.ofList Sample.ramp) =
        [1, 4].mapM (levelEntry Sample.metered Sample.rampRecords) := by
  have hcounts : Sample.metered.Counts := by
    intro records duration m h
    by_cases hd : duration = 0
    · cases (if_pos hd).symm.trans h
    · match records, (if_neg hd).symm.trans h with
      | [_], h => cases h; rfl
      | [_, _], h => cases h; rfl
      | [_, _, _], h => cases h; rfl
  have hpartition := breakdown_partition hcounts Sample.parse_ramp
  have hlevels : levels Sample.metered Sample.rampRecords = [1, 4] := by decide
  exact ⟨hlevels, hlevels ▸ hpartition.2.2.1⟩

end GrillPlatform
