import GrillPlatform.Orchestrator

/-! The requests that write: `RunService` and `NodeService` behind their controllers. -/

namespace GrillPlatform
open Coroutine

/-! ## storage.py -/

def uploadResults (run : Run) (jsonl : String) : Async S3Key := do
  let runKey := runResultsKey run.model run.engine run.id
  s3 (.putObject runKey (.jsonl jsonl))
  s3 (.copyObject (latestResultsKey run.model run.engine) runKey)
  return runKey

/-- `run.ended_at or datetime.now(timezone.utc)`. -/
def endedAtOrNow (run : Run) : Async Time :=
  match run.endedAt with
  | some t => pure t
  | none => datetimeNow

def uploadMeta (run : Run) : Async Unit := do
  let completedAt ← endedAtOrNow run
  s3 (.putObject (latestMetaKey run.model run.engine) (.completedRun (runMeta run completedAt)))

/-- `json.loads` of the stored leaderboard, entries that are no dictionaries raising later. -/
def leaderboardEntries : Option S3Body → Except Exc (List Json)
  | none => .ok []
  | some (.leaderboard entries) =>
    if entries.all Json.isObj then .ok entries else .error (.other "AttributeError")
  | some _ => .error (.valueError "JSONDecodeError")

def updateLeaderboardFor (run : Run) (result : Result) (perConcurrency : List Json) :
    Async Unit := do
  let current ← s3 (.getObject .leaderboard)
  let entries ← Prog.ofExcept (leaderboardEntries current)
  let measuredAt ← endedAtOrNow run
  s3 (.putObject .leaderboard (.leaderboard
    (withoutPair entries run.model run.engine ++
      [leaderboardEntry run result perConcurrency measuredAt])))

def uploadLogs (run : Run) (content : List UInt8) : Async S3Key := do
  let key := runLogsKey run.model run.engine run.id
  s3 (.putObject key (.log content))
  return key

/-! ## run_service.py -/

def l40sThresholdB : Int := 20

def selectGpu (modelSizeB : Int) : GpuType := if modelSizeB < l40sThresholdB then .L40S else .H100

def notFound (what : String) : Exc := .httpException 404 what
def conflict (what : String) : Exc := .httpException 409 what

namespace RunService

def create (body : RunCreate) : Async Run := do
  let id ← Prog.emit (S := sig) .uuid4
  let now ← datetimeNow
  query (.runCreate
    { id, model := body.model, modelSizeB := body.modelSizeB, engine := body.engine,
      gpuTypeRequired := selectGpu body.modelSizeB, scenarioPath := body.scenarioPath,
      ggufFile := body.ggufFile, createdAt := now })

/-- From the upload on; the run has been read as `running`. -/
def publish (cfg : Config) (run : Run) (resultsJsonl : String) : Async Unit := do
  let resultsUrl ← uploadResults run resultsJsonl
  let result ← Prog.ofExcept (aggregate cfg.llmGrill resultsJsonl run)
  let perConcurrency ← Prog.ofExcept (aggregatePerConcurrency cfg.llmGrill resultsJsonl)
  let completed ← query (.completeRun run.id resultsUrl.text result)
  uploadMeta completed.1
  updateLeaderboardFor completed.1 result perConcurrency

def complete (cfg : Config) (r : RunId) (resultsJsonl : String) : Async Unit := do
  match ← query (.runGet r) with
  | none => throw (notFound "run not found")
  | some run =>
    if run.1.status ≠ .running then throw (conflict "run is not running")
    else publish cfg run.1 resultsJsonl

def maxLogBytes : Nat := 5 * 1024 * 1024
def halfLogBytes : Nat := 2 * 1024 * 1024

/-- `text.encode()` of an ASCII text. -/
def asciiBytes (text : String) : List UInt8 := text.toList.map fun c => UInt8.ofNat c.toNat

def truncateLogs (body : List UInt8) : List UInt8 :=
  if body.length > maxLogBytes then
    body.take halfLogBytes ++
      asciiBytes s!"\n[... truncated middle {body.length - 2 * halfLogBytes} bytes ...]\n" ++
      body.drop (body.length - halfLogBytes)
  else body

def attachLogs (r : RunId) (body : List UInt8) : Async Unit := do
  match ← query (.runGet r) with
  | none => throw (notFound "run not found")
  | some run =>
    let key ← uploadLogs run.1 (truncateLogs body)
    let _ ← query (.setLogsUrl r key.text)
    if (← query (.runGet r)).isNone then throw (notFound "run not found after log upload")

def setPhase (r : RunId) (phase : String) : Async Unit := do
  match ← query (.runGet r) with
  | none => throw (notFound "run not found")
  | some run =>
    if run.1.status ≠ .running then throw (conflict "run is not running")
    else
      let _ ← query (.setPhase r phase)
      let _ ← query (.runGet r)

def fail (r : RunId) (errorMessage : String) : Async Unit := do
  match ← query (.runGet r) with
  | none => throw (notFound "run not found")
  | some run =>
    if run.1.status ≠ .running ∧ run.1.status ≠ .provisioning then
      throw (conflict "run cannot be failed")
    else
      let _ ← query (.failRun r errorMessage)

end RunService

/-! ## node_service.py -/

namespace NodeService

def register (id : NodeId) (gpuType : GpuType) : Async Unit := do
  match ← query (.nodeGet id) with
  | some _ => throw (conflict "node already registered")
  | none =>
    let _ ← query (.nodeCreate { id, gpuType })

def deregister (id : NodeId) : Async Unit := do
  match ← query (.nodeGet id) with
  | none => throw (notFound "node not found")
  | some node =>
    let _ ← query (.nodeSave { node with status := .down })

end NodeService

/-! ## bench_service.py -/

def headLatestMeta (model : String) (engine : Engine) : Async Bool :=
  s3 (.headObject (latestMetaKey model engine))

namespace BenchService

/-- The entries whose id contains the filter, case aside. -/
def filterEntries (u : Unicode) (entries : List ModelEntry) : Option String → List ModelEntry
  | none => entries
  | some modelFilter =>
    if modelFilter = "" then entries
    else entries.filter fun e => (u.lower modelFilter).toList <:+: (u.lower e.model).toList

def checkHfExists (modelId : String) : Async Unit := do
  let found ← Prog.call (.modelInfo modelId) Prog.ofExcept
  if found then pure ()
  else throw (.httpException 422 s!"Model not found on HuggingFace: {modelId}")

def publishCatalogs (cfg : Config) (entries : List ModelEntry) : Async Unit := do
  s3 (.putObject .models (.models (buildModelsCatalog cfg.unicode entries)))
  let scenarios ← Prog.ofExcept (dumpScenarios cfg.scenarioFiles)
  s3 (.putObject .scenarios (.scenarios scenarios))
  s3 (.putObject .engines (.engines buildEnginesCatalog))

/-- `asyncio.gather` of one check per entry. -/
def headAll : List ModelEntry → Async (List Bool)
  | [] => pure []
  | e :: rest => do
    let hasMeta ← headLatestMeta e.model e.engine
    return hasMeta :: (← headAll rest)

/-- How many entries would be benched, going by the bucket alone. -/
def pendingRunCount (cfg : Config) (force : Bool) (modelFilter : Option String) : Async Nat := do
  let entries := filterEntries cfg.unicode (← Prog.ofExcept cfg.loadModels) modelFilter
  if force then return entries.length
  else return (← headAll entries).countP (!·)

/-- The answer of `submit`. -/
structure Submission where
  submitted : List String := []
  skipped : List String := []
  deriving DecidableEq

def Submission.submit (out : Submission) (run : Run) : Submission :=
  { out with submitted := out.submitted ++ [uuidStr run.id] }

def Submission.skip (out : Submission) (label : String) : Submission :=
  { out with skipped := out.skipped ++ [label] }

def ModelEntry.runCreate (entry : ModelEntry) : RunCreate :=
  { model := entry.model, modelSizeB := entry.sizeB, engine := entry.engine,
    scenarioPath := entry.scenario, ggufFile := entry.ggufFile }

/-- The schema's check of the size is made here too. -/
def createRun (entry : ModelEntry) : Async Run :=
  if 0 < entry.sizeB then RunService.create (ModelEntry.runCreate entry)
  else throw (.valueError "ValidationError")

/-- `not force and await head_latest_meta(...)`. -/
def benched (force : Bool) (entry : ModelEntry) : Async Bool :=
  if force then pure false else headLatestMeta entry.model entry.engine

def submitEntry (force : Bool) (entry : ModelEntry) (out : Submission) : Async Submission := do
  let label := s!"{entry.model} [{entry.engine.format}]"
  if ← benched force entry then return out.skip label
  else if ← query (.hasActiveRun entry.model entry.engine) then
    return out.skip s!"{label} (already active)"
  else do
    checkHfExists entry.model
    return out.submit (← createRun entry)

def submitEntries (force : Bool) : List ModelEntry → Submission → Async Submission
  | [], out => pure out
  | entry :: rest, out => do
    submitEntries force rest (← submitEntry force entry out)

def submit (cfg : Config) (force : Bool) (modelFilter : Option String) : Async Submission := do
  let allEntries ← Prog.ofExcept cfg.loadModels
  publishCatalogs cfg allEntries
  let entries := filterEntries cfg.unicode allEntries modelFilter
  match modelFilter with
  | some needle =>
    if needle ≠ "" ∧ entries = [] then
      throw (.httpException 404 s!"No model matching '{needle}' in models.yaml")
    else submitEntries force entries {}
  | none => submitEntries force entries {}

end BenchService

/-! ## The controllers -/

namespace RunController

def complete (cfg : Config) (r : RunId) (resultsJsonl : String) : Async Unit := do
  RunService.complete cfg r resultsJsonl
  createTask (.releaseNode r)

def fail (r : RunId) (errorMessage : String) : Async Unit := do
  RunService.fail r errorMessage
  createTask (.releaseNode r)

end RunController

def NodeController.deregister (id : NodeId) : Async Unit := do
  match ← query (.nodeGet id) with
  | none => throw (notFound "node not found")
  | some _ => NodeService.deregister id

/-- The checks of the request schemas. -/
def Request.valid : Request → Bool
  | .createRun body => 0 < body.modelSizeB
  | .setPhase _ phase => isTrimmed phase ∧ phase ≠ ""
  | _ => true

def Request.body (cfg : Config) : Request → Async Unit
  | .createRun body => do
    let _ ← RunService.create body
  | .complete r resultsJsonl => RunController.complete cfg r resultsJsonl
  | .fail r errorMessage => RunController.fail r errorMessage
  | .setPhase r phase => RunService.setPhase r phase
  | .attachLogs r body => RunService.attachLogs r body
  | .registerNode id gpuType => NodeService.register id gpuType
  | .deregisterNode id => NodeController.deregister id
  | .submit force modelFilter => do
    let _ ← BenchService.submit cfg force modelFilter

end GrillPlatform
