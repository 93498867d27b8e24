import GrillPlatform.Table
import Mathlib.Data.BitVec

/-! The schema of the orchestrator's database, and the exceptions its code tells apart. -/

namespace GrillPlatform

/-- `uuid.UUID`, a 128-bit integer. -/
abbrev RunId := BitVec 128

instance RunId.decidableMem (r : RunId) (ids : List RunId) : Decidable (r ∈ ids) := inferInstance

/-- A point in time, in microseconds. -/
abbrev Time := Int

/-- The bits of an IEEE double. -/
abbrev PyFloat := BitVec 64

/-- Some of the 32 hexadecimal digits. -/
def hexDigits (r : RunId) (start len : Nat) : List Char :=
  (List.range' start len).map fun i => Nat.digitChar (r.toNat / 16 ^ (31 - i) % 16)

/-- `str(uuid)`: the digits in groups of 8, 4, 4, 4 and 12. -/
def uuidStr (r : RunId) : String :=
  String.ofList (hexDigits r 0 8 ++ '-' :: hexDigits r 8 4 ++ '-' :: hexDigits r 12 4 ++
    '-' :: hexDigits r 16 4 ++ '-' :: hexDigits r 20 12)

theorem digitChar_inj : ∀ m < 16, ∀ n < 16, Nat.digitChar m = Nat.digitChar n → m = n := by decide

theorem eq_of_digits {n a b : Nat} (ha : a < 16 ^ n) (hb : b < 16 ^ n)
    (h : ∀ k < n, a / 16 ^ k % 16 = b / 16 ^ k % 16) : a = b := by
  induction n generalizing a b with
  | zero => omega
  | succ n ih =>
    rw [pow_succ] at ha hb
    have hq : a / 16 = b / 16 := ih (by omega) (by omega) fun k hk => by
      have := h (k + 1) (by omega)
      rwa [pow_succ', ← Nat.div_div_eq_div_mul, ← Nat.div_div_eq_div_mul] at this
    have hr := h 0 (by omega)
    rw [pow_zero, Nat.div_one, Nat.div_one] at hr
    omega

theorem hexDigits_inj {a b : RunId} {start len : Nat}
    (h : hexDigits a start len = hexDigits b start len) :
    ∀ i, start ≤ i → i < start + len →
      a.toNat / 16 ^ (31 - i) % 16 = b.toNat / 16 ^ (31 - i) % 16 := fun i hs hl =>
  digitChar_inj _ (Nat.mod_lt _ (by decide)) _ (Nat.mod_lt _ (by decide))
    (List.map_inj_left.1 h i (List.mem_range'_1.2 ⟨hs, hl⟩))

theorem uuidStr_injective {a b : RunId} (h : uuidStr a = uuidStr b) : a = b := by
  obtain ⟨h, h₅⟩ := List.append_inj' (String.ofList_injective h) (by simp [hexDigits])
  obtain ⟨h, h₄⟩ := List.append_inj' h (by simp [hexDigits])
  obtain ⟨h, h₃⟩ := List.append_inj' h (by simp [hexDigits])
  obtain ⟨h₁, h₂⟩ := List.append_inj' h (by simp [hexDigits])
  refine BitVec.eq_of_toNat_eq (eq_of_digits (n := 32) a.isLt b.isLt fun k hk => ?_)
  rw [show k = 31 - (31 - k) by omega]
  -- the group the digit is in
  obtain hi | hi | hi | hi | hi : 31 - k < 8 ∨ (8 ≤ 31 - k ∧ 31 - k < 12) ∨
      (12 ≤ 31 - k ∧ 31 - k < 16) ∨ (16 ≤ 31 - k ∧ 31 - k < 20) ∨ 20 ≤ 31 - k := by omega
  · exact hexDigits_inj h₁ _ (Nat.zero_le _) hi
  · exact hexDigits_inj (List.cons.inj h₂).2 _ hi.1 hi.2
  · exact hexDigits_inj (List.cons.inj h₃).2 _ hi.1 hi.2
  · exact hexDigits_inj (List.cons.inj h₄).2 _ hi.1 hi.2
  · exact hexDigits_inj (List.cons.inj h₅).2 _ hi (by omega)

inductive RunStatus where
  | queued | provisioning | running | done | failed
  deriving DecidableEq, Repr

inductive NodeStatus where
  | provisioning | busy | down
  deriving DecidableEq, Repr

inductive Engine where
  | vllm | llamacpp
  deriving DecidableEq, Repr

inductive GpuType where
  | L40S | H100
  deriving DecidableEq, Repr

def Engine.value : Engine → String
  | .vllm => "vllm"
  | .llamacpp => "llamacpp"

/-- `f"{engine}"`, the name of the member. -/
def Engine.format (engine : Engine) : String := "Engine." ++ engine.value

def GpuType.value : GpuType → String
  | .L40S => "L40S"
  | .H100 => "H100"

/-- `for gpu_type in GpuType`. -/
def GpuType.all : List GpuType := [.L40S, .H100]

def activeRunStatuses : List RunStatus := [.queued, .provisioning, .running]

/-- The keys of `nodes`: the texts `node-<run_id>`, and every other text. -/
inductive NodeId where
  | ofRun (r : RunId)
  | named (s : String)
  deriving DecidableEq, Repr

structure Node where
  id : NodeId
  gpuType : GpuType
  status : NodeStatus := .provisioning
  ipAddress : Option String := none
  currentRunId : Option RunId := none
  deriving DecidableEq, Repr

structure Run where
  id : RunId
  status : RunStatus := .queued
  model : String
  modelSizeB : Int
  engine : Engine
  gpuTypeRequired : GpuType
  scenarioPath : String
  ggufFile : Option String := none
  resultsUrl : Option String := none
  logsUrl : Option String := none
  errorMessage : Option String := none
  provisionAttempts : Nat := 0
  provisioningStartedAt : Option Time := none
  currentPhase : Option String := none
  phaseUpdatedAt : Option Time := none
  createdAt : Time
  startedAt : Option Time := none
  endedAt : Option Time := none
  deriving DecidableEq, Repr

/-- What `llm_grill.metrics.aggregate` reports for a list of requests. -/
structure Metrics where
  scenario : String
  totalRequests : Int
  successCount : Int
  errorCount : Int
  successRate : PyFloat
  ttftMeanS : PyFloat
  ttftMedianS : PyFloat
  ttftP95S : PyFloat
  tpotMeanS : PyFloat
  e2eMeanS : PyFloat
  e2eP95S : PyFloat
  tokensPerSecondMean : PyFloat
  totalTokensPerSecond : PyFloat
  requestsPerSecond : PyFloat
  totalDurationS : PyFloat
  deriving DecidableEq, Repr

/-- A row of `results`; the columns copied from the metrics stay together. -/
structure Result where
  runId : RunId
  model : String
  engine : String
  gpuType : GpuType
  metrics : Metrics
  deriving DecidableEq, Repr

/-- The three tables. `results.run_id` is declared unique and serves as the key. -/
structure Db where
  runs : Table Run.id
  nodes : Table Node.id
  results : Table Result.runId

def Db.empty : Db := ⟨.empty, .empty, .empty⟩

/-- What the code raises or catches. The first five are the `TerraformError` family. -/
inductive Exc where
  | outOfStockError (stderr : String)
  | scalewayAuthError (stderr : String)
  | scalewayQuotaError (stderr : String)
  | serverStartError (stderr : String)
  | terraformError (stderr : String)
  | valueError (msg : String)
  | noResultFound
  | multipleResultsFound
  | integrityError
  | httpException (status : Nat) (detail : String)
  | other (msg : String)
  deriving DecidableEq, Repr

/-- `str(exc)`. -/
def Exc.str : Exc → String
  | .outOfStockError s | .scalewayAuthError s | .scalewayQuotaError s | .serverStartError s
  | .terraformError s => s
  | .valueError s => s
  | .noResultFound => "No row was found when one was required"
  | .multipleResultsFound => "Multiple rows were found when one or none was required"
  | .integrityError => "integrity error"
  | .httpException _ d => d
  | .other s => s

namespace Db

def status (db : Db) (r : RunId) : Option RunStatus := (db.runs.get r).map Run.status

def nodesOf (db : Db) (r : RunId) : List Node := db.nodes.rows.filter (·.currentRunId = some r)

def modifyRun (db : Db) (r : RunId) (f : Run → Run) (hf : ∀ x, (f x).id = x.id) : Db :=
  { db with runs := db.runs.update r f hf }

def modifyRuns (db : Db) (p : Run → Bool) (f : Run → Run) (hf : ∀ x, (f x).id = x.id) : Db :=
  { db with
    runs := db.runs.modify (fun x => if p x then f x else x) fun x => by split <;> simp [hf] }

variable (db : Db) (r : RunId) (f : Run → Run) (hf : ∀ x, (f x).id = x.id)

@[simp] theorem modifyRun_nodes : (db.modifyRun r f hf).nodes = db.nodes := rfl

@[simp] theorem modifyRun_results : (db.modifyRun r f hf).results = db.results := rfl

theorem get_modifyRun (r' : RunId) : (db.modifyRun r f hf).runs.get r' =
    if r' = r then (db.runs.get r).map f else db.runs.get r' := Table.get_update db.runs r f hf r'

theorem status_modifyRun (r' : RunId) : (db.modifyRun r f hf).status r' =
    if r' = r then ((db.runs.get r).map f).map Run.status else db.status r' := by
  rw [status, get_modifyRun]
  split <;> rfl

theorem get_modifyRuns (p : Run → Bool) (r' : RunId) : (db.modifyRuns p f hf).runs.get r' =
    (db.runs.get r').map fun x => if p x then f x else x := by
  rw [modifyRuns, Table.get_modify]

theorem status_of_get {db : Db} {r : RunId} {run : Run} (h : db.runs.get r = some run) :
    db.status r = some run.status := by rw [status, h]; rfl

theorem get_of_status {db : Db} {r : RunId} {s : RunStatus} (h : db.status r = some s) :
    ∃ run, db.runs.get r = some run ∧ run.status = s := Option.map_eq_some_iff.1 h

theorem mem_nodesOf {db : Db} {r : RunId} {n : Node} :
    n ∈ db.nodesOf r ↔ n ∈ db.nodes.rows ∧ n.currentRunId = some r := by simp [nodesOf]

end Db
end GrillPlatform
