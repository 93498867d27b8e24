import GrillPlatform.Models
import GrillPlatform.Text.Unicode
import Mathlib.Data.List.Sort

/-! The benchmark payload: lines of JSON, parsed and aggregated as a whole and per concurrency
level. The `llm_grill` package is a parameter. -/

namespace GrillPlatform

inductive Json where
  | null
  | bool (b : Bool)
  | int (n : Int)
  | float (x : PyFloat)
  | str (s : String)
  | arr (xs : List Json)
  | obj (fields : List (String × Json))

def Json.isObj : Json → Bool
  | .obj _ => true
  | _ => false

/-- `e.get(k)` of a dictionary. -/
def Json.get : Json → String → Option Json
  | .obj fields, k => fields.lookup k
  | _, _ => none

/-- `e.get(k) == s` for a string `s`. -/
def Json.hasStr (e : Json) (k s : String) : Bool :=
  match e.get k with
  | some (.str t) => t = s
  | _ => false

/-- What the code uses of the `llm_grill` package. -/
structure LlmGrill where
  RequestMetrics : Type
  modelValidateJson : String → Except Exc RequestMetrics
  concurrentUsersLevel : RequestMetrics → Int
  estimateTotalDuration : List RequestMetrics → Except Exc PyFloat
  aggregate : List RequestMetrics → PyFloat → Except Exc Metrics

/-- The characters at which `str.splitlines` ends a line. -/
def isLineBoundary (c : Char) : Bool :=
  c.toNat ∈ [0x0a, 0x0b, 0x0c, 0x0d, 0x1c, 0x1d, 0x1e, 0x85, 0x2028, 0x2029]

/-- `str.splitlines` behind the characters `line` of the current line, in reverse. -/
def splitlinesFrom (line : List Char) : List Char → List (List Char)
  | [] => if line = [] then [] else [line.reverse]
  | '\r' :: '\n' :: cs => line.reverse :: splitlinesFrom [] cs
  | c :: cs =>
    if isLineBoundary c then line.reverse :: splitlinesFrom [] cs else splitlinesFrom (c :: line) cs

def splitlines (s : String) : List String := (splitlinesFrom [] s.toList).map String.ofList

/-- `itertools.groupby` with the groups as lists. -/
def groupby {α : Type} (key : α → Int) : List α → List (Int × List α)
  | [] => []
  | a :: as =>
    match groupby key as with
    | [] => [(key a, [a])]
    | (k, g) :: rest => if key a = k then (k, a :: g) :: rest else (key a, [a]) :: (k, g) :: rest

variable (L : LlmGrill)

def parse (jsonl : String) : Except Exc (List L.RequestMetrics) :=
  ((splitlines jsonl).filter fun line => line.toList.any (!isSpace ·)).mapM L.modelValidateJson

def aggregate (jsonl : String) (run : Run) : Except Exc Result := do
  let results ← parse L jsonl
  let totalDurationS ← (if results.isEmpty then .ok 0 else L.estimateTotalDuration results)
  let metrics ← L.aggregate results totalDurationS
  return { runId := run.id, model := run.model, engine := run.engine.value,
           gpuType := run.gpuTypeRequired, metrics }

def breakdownEntry (level : Int) (m : Metrics) : Json :=
  .obj [("concurrency", .int level), ("n_requests", .int m.totalRequests),
    ("success_rate", .float m.successRate), ("ttft_mean_s", .float m.ttftMeanS),
    ("ttft_median_s", .float m.ttftMedianS), ("ttft_p95_s", .float m.ttftP95S),
    ("tpot_mean_s", .float m.tpotMeanS), ("e2e_mean_s", .float m.e2eMeanS),
    ("e2e_p95_s", .float m.e2eP95S), ("tokens_per_second_mean", .float m.tokensPerSecondMean),
    ("total_tokens_per_second", .float m.totalTokensPerSecond),
    ("requests_per_second", .float m.requestsPerSecond)]

def aggregatePerConcurrency (jsonl : String) : Except Exc (List Json) := do
  let results ← parse L jsonl
  let level := L.concurrentUsersLevel
  (groupby level (results.insertionSort fun a b => level a ≤ level b)).mapM fun (k, slice) => do
    let m ← L.aggregate slice (← L.estimateTotalDuration slice)
    return breakdownEntry k m

theorem exceptBind_ok {ε α β : Type} {x : Except ε α} {f : α → Except ε β} {b : β}
    (h : x >>= f = .ok b) : ∃ a, x = .ok a ∧ f a = .ok b := by
  cases x with
  | error e => cases h
  | ok a => exact ⟨a, rfl, h⟩

theorem forall₂_of_mapM {ε α β : Type} {f : α → Except ε β} {xs : List α} {ys : List β}
    (h : xs.mapM f = .ok ys) : List.Forall₂ (fun x y => f x = .ok y) xs ys := by
  induction xs generalizing ys with
  | nil =>
    cases h
    exact .nil
  | cons x xs ih =>
    rw [List.mapM_cons] at h
    obtain ⟨y, hy, h⟩ := exceptBind_ok h
    obtain ⟨zs, hzs, h⟩ := exceptBind_ok h
    cases h
    exact .cons hy (ih hzs)

section
variable {α β : Type} {R : α → β → Prop} {xs : List α} {ys : List β}

theorem exists_right_of_forall₂ (h : List.Forall₂ R xs ys) {x : α} (hx : x ∈ xs) :
    ∃ y ∈ ys, R x y := by
  induction h with
  | nil => cases hx
  | @cons _ y _ _ hxy _ ih =>
    rcases List.mem_cons.1 hx with rfl | hx
    · exact ⟨y, List.mem_cons_self, hxy⟩
    · obtain ⟨y, hy, hr⟩ := ih hx
      exact ⟨y, List.mem_cons_of_mem _ hy, hr⟩

theorem exists_left_of_forall₂ (h : List.Forall₂ R xs ys) {y : β} (hy : y ∈ ys) :
    ∃ x ∈ xs, R x y := exists_right_of_forall₂ h.flip hy

end

theorem runId_aggregate {jsonl : String} {run : Run} {result : Result}
    (h : aggregate L jsonl run = .ok result) : result.runId = run.id := by
  obtain ⟨results, -, h⟩ := exceptBind_ok h
  obtain ⟨total, -, h⟩ := exceptBind_ok h
  obtain ⟨metrics, -, h⟩ := exceptBind_ok h
  cases h
  rfl

theorem isOk_bind {ε α β γ : Type} {x : Except ε α} {f : α → Except ε β} {g : α → Except ε γ}
    (h : ∀ a, (f a).isOk = (g a).isOk) : (x >>= f).isOk = (x >>= g).isOk := by
  cases x with
  | error e => rfl
  | ok a => exact h a

theorem isOk_aggregate (jsonl : String) (run run' : Run) :
    (aggregate L jsonl run).isOk = (aggregate L jsonl run').isOk :=
  isOk_bind fun _ => isOk_bind fun _ => isOk_bind fun _ => rfl

end GrillPlatform
