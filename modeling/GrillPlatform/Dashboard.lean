import GrillPlatform.Breakdown
import GrillPlatform.Float.Integer
import GrillPlatform.LeaderboardEdits
import GrillPlatform.Payload
import GrillPlatform.Site.Data

/-! From the payload to the dashboard: the leaderboard as the completions have left it, parsed in
the browser and joined with the models. -/

namespace GrillPlatform
open Binary64 Coroutine Seq Site
variable {cfg : Config} {payload : RunId → String}

/-- A number as the browser parses it. -/
def Json.asNumber : Json → Option Number
  | .int n => some (ofInt n)
  | .float x => some x
  | _ => none

def Json.number (e : Json) (k : String) : Option Number := (e.get k).bind Json.asNumber

/-- The level that is chosen: all of them, or one of the scenario. -/
def chosen : Option Int → ConcurrencyLevel
  | none => .agg
  | some k => .level (ofInt k)

def pointFor (k : Int) (m : Metrics) : ConcurrencyPoint where
  concurrency := ofInt k
  nRequests := ofInt m.totalRequests
  successRate := m.successRate
  ttftMeanS := m.ttftMeanS
  ttftMedianS := m.ttftMedianS
  ttftP95S := m.ttftP95S
  tpotMeanS := m.tpotMeanS
  e2eMeanS := m.e2eMeanS
  e2eP95S := m.e2eP95S
  tokensPerSecondMean := m.tokensPerSecondMean
  totalTokensPerSecond := m.totalTokensPerSecond
  requestsPerSecond := m.requestsPerSecond

/-- The point of a level is that of its slice. -/
def PointOf (L : LlmGrill) (records : List L.RequestMetrics) (k : Int) (p : ConcurrencyPoint) :
    Prop :=
  ∃ duration m, L.estimateTotalDuration (slice L records k) = .ok duration ∧
    L.aggregate (slice L records k) duration = .ok m ∧ p = pointFor k m

section
variable {L : LlmGrill} {jsonl : String} {records : List L.RequestMetrics}

def engineId (e : Engine) : EngineId := ⟨e.value, by cases e <;> decide⟩

def rowFor (run : Run) (result : Result) (points : List ConcurrencyPoint) (t : Time) :
    LeaderboardRow where
  model := run.model
  engine := engineId run.engine
  gpuType := result.gpuType.value
  tokensPerSecondMean := result.metrics.tokensPerSecondMean
  totalTokensPerSecond := result.metrics.totalTokensPerSecond
  requestsPerSecond := result.metrics.requestsPerSecond
  nRequests := ofInt result.metrics.totalRequests
  ttftMeanS := result.metrics.ttftMeanS
  ttftMedianS := result.metrics.ttftMedianS
  ttftP95S := result.metrics.ttftP95S
  tpotMeanS := result.metrics.tpotMeanS
  e2eMeanS := result.metrics.e2eMeanS
  e2eP95S := result.metrics.e2eP95S
  successRate := result.metrics.successRate
  perConcurrency := some points
  runId := uuidStr run.id
  measuredAt := isoformat t

variable {run : Run} {result : Result} {points : List ConcurrencyPoint} {t : Time}

end

/-- A row of the site and the entry it is parsed from, with the run behind both. -/
inductive RowOf (cfg : Config) (payload : RunId → String) (db : Db) : Json → LeaderboardRow → Prop
  | mk {run : Run} {result : Result} {records : List cfg.llmGrill.RequestMetrics}
      {perConcurrency : List Json} {points : List ConcurrencyPoint} {t : Time}
      (hrun : db.runs.get run.id = some run) (hresult : db.results.get run.id = some result)
      (hgpu : result.gpuType = run.gpuTypeRequired)
      (hp : parse cfg.llmGrill (payload run.id) = .ok records)
      (hpoints : List.Forall₂ (PointOf cfg.llmGrill records) (levels cfg.llmGrill records) points) :
      RowOf cfg payload db (leaderboardEntry run result perConcurrency t)
        (rowFor run result points t)

section
variable {w : World} {entry : Json}

theorem RowOf.pair {row : LeaderboardRow} (h : RowOf cfg payload w.db entry row) :
    some (row.pair.1, row.pair.2.value) = entry.pair := by
  cases h
  rfl

end

namespace Sample

end Sample

end GrillPlatform
