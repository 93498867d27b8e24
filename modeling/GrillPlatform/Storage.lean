import GrillPlatform.Aggregation
import GrillPlatform.Catalog

/-! The S3 bucket: its keys and the objects the orchestrator keeps under them. -/

namespace GrillPlatform

/-- `model.replace("/", "__")`. -/
def slug (model : String) : String :=
  String.ofList (model.toList.flatMap fun c => if c = '/' then ['_', '_'] else [c])

/-- The object keys, by the function that builds them. -/
inductive S3Key where
  | runResults (slug : String) (engine : Engine) (runId : RunId)
  | runLogs (slug : String) (engine : Engine) (runId : RunId)
  | latestResults (slug : String) (engine : Engine)
  | latestMeta (slug : String) (engine : Engine)
  | leaderboard
  | models
  | scenarios
  | engines
  deriving DecidableEq, Repr

def S3Key.text : S3Key → String
  | .runResults s e r => s!"results/{s}/{e.value}/runs/{uuidStr r}/results.jsonl"
  | .runLogs s e r => s!"results/{s}/{e.value}/runs/{uuidStr r}/runner.log"
  | .latestResults s e => s!"results/{s}/{e.value}/latest.jsonl"
  | .latestMeta s e => s!"results/{s}/{e.value}/latest.meta.json"
  | .leaderboard => "leaderboard.json"
  | .models => "models.json"
  | .scenarios => "scenarios.json"
  | .engines => "engines.json"

def runResultsKey (model : String) (engine : Engine) (runId : RunId) : S3Key :=
  .runResults (slug model) engine runId

def runLogsKey (model : String) (engine : Engine) (runId : RunId) : S3Key :=
  .runLogs (slug model) engine runId

def latestResultsKey (model : String) (engine : Engine) : S3Key :=
  .latestResults (slug model) engine

def latestMetaKey (model : String) (engine : Engine) : S3Key := .latestMeta (slug model) engine

/-- The payload of `latest.meta.json`. -/
structure CompletedRunMeta where
  runId : RunId
  model : String
  engine : String
  scenario : String
  completedAt : Time
  gitSha : Option String := none
  deriving DecidableEq, Repr

inductive S3Body where
  | jsonl (text : String)
  | log (bytes : List UInt8)
  | completedRun (doc : CompletedRunMeta)
  | leaderboard (entries : List Json)
  | models (rows : List ModelRow)
  | scenarios (entries : List ScenarioSummary)
  | engines (entries : List (String × String))

abbrev S3 := S3Key → Option S3Body

def runMeta (run : Run) (completedAt : Time) : CompletedRunMeta :=
  { runId := run.id, model := run.model, engine := run.engine.value,
    scenario := run.scenarioPath, completedAt }

/-- `n` in decimal, with zeros in front up to `width` digits. -/
def zeroPad (width n : Nat) : String :=
  let digits := (toString n).toList
  String.ofList (List.replicate (width - digits.length) '0' ++ digits)

/-- `isoformat()` of a UTC time in the years of the Gregorian calendar that `datetime` covers. -/
def isoformat (t : Time) : String :=
  let days := t / 86400000000 + 719468
  let micros := (t % 86400000000).toNat
  let era := days / 146097
  let doe := (days % 146097).toNat
  let yoe := (doe - doe / 1460 + doe / 36524 - doe / 146096) / 365
  let doy := doe - (365 * yoe + yoe / 4 - yoe / 100)
  let mp := (5 * doy + 2) / 153
  let month := if mp < 10 then mp + 3 else mp - 9
  let year := (era * 400).toNat + yoe + (if month ≤ 2 then 1 else 0)
  let secs := micros / 1000000
  let fraction := if micros % 1000000 = 0 then "" else "." ++ zeroPad 6 (micros % 1000000)
  s!"{zeroPad 4 year}-{zeroPad 2 month}-{zeroPad 2 (doy - (153 * mp + 2) / 5 + 1)}T" ++
    s!"{zeroPad 2 (secs / 3600)}:{zeroPad 2 (secs / 60 % 60)}:{zeroPad 2 (secs % 60)}" ++
    s!"{fraction}+00:00"

/-- The entry `update_leaderboard_for` appends. -/
def leaderboardEntry (run : Run) (result : Result) (perConcurrency : List Json)
    (measuredAt : Time) : Json :=
  let m := result.metrics
  .obj [("model", .str run.model), ("engine", .str run.engine.value),
    ("gpu_type", .str result.gpuType.value),
    ("tokens_per_second_mean", .float m.tokensPerSecondMean),
    ("total_tokens_per_second", .float m.totalTokensPerSecond),
    ("requests_per_second", .float m.requestsPerSecond), ("n_requests", .int m.totalRequests),
    ("ttft_mean_s", .float m.ttftMeanS), ("ttft_median_s", .float m.ttftMedianS),
    ("ttft_p95_s", .float m.ttftP95S), ("tpot_mean_s", .float m.tpotMeanS),
    ("e2e_mean_s", .float m.e2eMeanS), ("e2e_p95_s", .float m.e2eP95S),
    ("success_rate", .float m.successRate), ("per_concurrency", .arr perConcurrency),
    ("run_id", .str (uuidStr run.id)), ("measured_at", .str (isoformat measuredAt))]

def withoutPair (entries : List Json) (model : String) (engine : Engine) : List Json :=
  entries.filter fun e => !(e.hasStr "model" model && e.hasStr "engine" engine.value)

def Json.names (e : Json) (r : RunId) : Bool := e.hasStr "run_id" (uuidStr r)

section
variable (run : Run) (result : Result) (perConcurrency : List Json) (t : Time)

theorem hasStr_model (s : String) :
    (leaderboardEntry run result perConcurrency t).hasStr "model" s = decide (run.model = s) := rfl

theorem hasStr_engine (s : String) :
    (leaderboardEntry run result perConcurrency t).hasStr "engine" s =
    decide (run.engine.value = s) := rfl

theorem names_leaderboardEntry (r : RunId) :
    (leaderboardEntry run result perConcurrency t).names r =
      decide (uuidStr run.id = uuidStr r) := rfl

end

end GrillPlatform
