import GrillPlatform.Coroutine.Pool
import GrillPlatform.Infra.Cloud
import GrillPlatform.Repositories.NodeRepository
import GrillPlatform.Storage

/-! Everything the orchestrator's coroutines await, and what each call does to the world they
share. A repository method is one atomic transaction. -/

namespace GrillPlatform
open Coroutine

/-- The settings the orchestrator reads, the files of the image, and the parts of libraries. -/
structure Config where
  pollIntervalSeconds : Nat := 10
  provisionMaxAttempts : Int := 30
  sshPublicKeys : String := ""
  adminCidrs : String := ""
  runRunningTimeoutMinutes : Int := 60
  runProvisioningTimeoutMinutes : Int := 30
  gpuQuotaH100 : Int := 1
  gpuQuotaL40s : Int := 1
  orchestratorUrl : String := "http://localhost:8000"
  gpuZone : String := "fr-par-2"
  gpuInstanceTypeOverride : String := ""
  dockerImageVllm : String := "ghcr.io/notnotearlybirds/llmgrill-runner-vllm:latest"
  dockerImageLlamacpp : String := "ghcr.io/notnotearlybirds/llmgrill-runner-llamacpp:latest"
  downloadTimeoutSeconds : Int := 1800
  engineHealthTimeoutSeconds : Int := 600
  /-- A path under the repository root, resolved, and the text of the file there, as `read_text`
  returns it: with every line break a line feed. -/
  resolve : String → String
  readFile : String → Option String
  llmGrill : LlmGrill
  unicode : Unicode := {}
  /-- What `_load_models` makes of `models_file`. -/
  loadModels : Except Exc (List ModelEntry) := .ok []
  /-- The files `scenarios/*.yaml` of the image, in the order of the directory. -/
  scenarioFiles : Option (List ScenarioFile) := none

structure RunCreate where
  model : String
  modelSizeB : Int
  engine : Engine
  scenarioPath : String
  ggufFile : Option String := none
  deriving DecidableEq

/-- The requests that write. -/
inductive Request where
  | createRun (body : RunCreate)
  | complete (runId : RunId) (resultsJsonl : String)
  | fail (runId : RunId) (errorMessage : String)
  | setPhase (runId : RunId) (phase : String)
  | attachLogs (runId : RunId) (body : List UInt8)
  | registerNode (id : NodeId) (gpuType : GpuType)
  | deregisterNode (id : NodeId)
  | submit (force : Bool) (modelFilter : Option String)
  deriving DecidableEq

/-- The asyncio tasks of the process. -/
inductive TaskName where
  | pollingLoop
  | pollTick
  | handleQueuedRun (runId : RunId) (gpuType : GpuType)
  | releaseNode (runId : RunId)
  | recoverOrphanedProvisioningRun (runId : RunId)
  | abortStuckRunning (runId : RunId) (lastPhase : Option String)
  | abortStuckProvisioning (runId : RunId)
  | request (req : Request)
  deriving DecidableEq

inductive Query where
  | runGet (runId : RunId)
  | claimQueued (gpuType : GpuType) (limit : Int)
  | countLiveByType
  | hasActiveRun (model : String) (engine : Engine)
  | runCreate (run : Run)
  | completeRun (runId : RunId) (resultsUrl : String) (result : Result)
  | failRun (runId : RunId) (errorMessage : String)
  | setRunning (runId : RunId) (startedAt : Time)
  | setLogsUrl (runId : RunId) (logsUrl : String)
  | setPhase (runId : RunId) (phase : String)
  | claimRunningTimedOut (cutoff : Time)
  | getOrphanedProvisioning
  | claimProvisioningTimedOut (cutoff : Time)
  | requeueForRetry (runId : RunId) (maxAttempts : Int)
  | setFailed (runId : RunId) (endedAt : Time) (errorMessage : Option String)
  | nodeGet (nodeId : NodeId)
  | nodeCreate (node : Node)
  | nodeSave (node : Node)
  | createProvisioning (runId : RunId) (gpuType : GpuType)
  | setBusy (runId : RunId) (instanceId : NodeId) (publicIp : String)
  | getLeaked
  | setDownByRun (runId : RunId)

namespace Query

abbrev Resp : Query → Type
  | .runGet r => Option (RunOf r)
  | .claimQueued .. => List (RunId × GpuType)
  | .countLiveByType => GpuType → Nat
  | .hasActiveRun .. => Bool
  | .runCreate _ => Run
  | .completeRun r .. | .failRun r _ | .setRunning r _ | .setLogsUrl r _ | .setPhase r _
  | .setFailed r .. => RunOf r
  | .claimRunningTimedOut _ => List (RunId × Option String)
  | .getOrphanedProvisioning | .claimProvisioningTimedOut _ | .getLeaked => List RunId
  | .requeueForRetry .. => Option Nat
  | .nodeGet _ => Option Node
  | .nodeCreate _ | .nodeSave _ | .createProvisioning .. => Node
  | .setBusy .. | .setDownByRun _ => Unit

/-- The transaction of a call, with the rows the server picks and the time it reads. -/
def tx (pick : List RunId) (now : Time) : (q : Query) → Tx q.Resp
  | .runGet r => RunRepository.get r
  | .claimQueued g limit => RunRepository.claimQueued g limit pick now
  | .countLiveByType => RunRepository.countLiveByType
  | .hasActiveRun m e => RunRepository.hasActiveRun m e
  | .runCreate run => RunRepository.create run
  | .completeRun r url result => RunRepository.completeRun r url result now
  | .failRun r msg => RunRepository.failRun r msg now
  | .setRunning r t => RunRepository.setRunning r t
  | .setLogsUrl r url => RunRepository.setLogsUrl r url
  | .setPhase r phase => RunRepository.setPhase r phase now
  | .claimRunningTimedOut cutoff => RunRepository.claimRunningTimedOut cutoff now
  | .getOrphanedProvisioning => RunRepository.getOrphanedProvisioning
  | .claimProvisioningTimedOut cutoff => RunRepository.claimProvisioningTimedOut cutoff now
  | .requeueForRetry r m => RunRepository.requeueForRetry r m
  | .setFailed r t msg => RunRepository.setFailed r t msg
  | .nodeGet i => NodeRepository.get i
  | .nodeCreate node => NodeRepository.create node
  | .nodeSave node => NodeRepository.save node
  | .createProvisioning r g => NodeRepository.createProvisioning r g
  | .setBusy r i ip => NodeRepository.setBusy r i ip
  | .getLeaked => NodeRepository.getLeaked
  | .setDownByRun r => NodeRepository.setDownByRun r

/-- The calls of `NodeRepository` that write. -/
def onNodes : Query → Bool
  | .nodeCreate _ | .nodeSave _ | .createProvisioning .. | .setBusy .. | .setDownByRun _ => true
  | _ => false

section
variable {q : Query} {pick : List RunId} {now : Time} {db db' : Db} {a : q.Resp}

theorem frame_nodes (h : q.tx pick now db = .ok (a, db')) (hq : q.onNodes = true) :
    db'.runs = db.runs ∧ db'.results = db.results := by
  cases q with
  | nodeCreate node =>
    simp only [tx, NodeRepository.create] at h
    split at h <;> cases h
    exact ⟨rfl, rfl⟩
  | nodeSave node =>
    cases h
    exact ⟨rfl, rfl⟩
  | createProvisioning r g =>
    cases (NodeRepository.createProvisioning_ok r g db).symm.trans h
    exact ⟨rfl, rfl⟩
  | setBusy r i ip =>
    simp only [tx, NodeRepository.setBusy] at h
    split at h
    · cases h
    · split at h <;> cases h
      exact ⟨rfl, rfl⟩
  | setDownByRun r =>
    simp only [tx, NodeRepository.setDownByRun] at h
    split at h <;> cases h <;> exact ⟨rfl, rfl⟩
  | _ => cases hq

theorem frame_runs (h : q.tx pick now db = .ok (a, db')) (hq : q.onNodes = false) :
    db'.nodes = db.nodes ∧
      (db'.results = db.results ∨ ∃ r url result, q = .completeRun r url result) := by
  cases q with
  | runCreate run =>
    obtain ⟨-, -, runs, -, rfl⟩ := RunRepository.create_ok h
    exact ⟨rfl, .inl rfl⟩
  | claimQueued g limit =>
    simp only [tx, RunRepository.claimQueued] at h
    split at h <;> cases h <;> exact ⟨rfl, .inl rfl⟩
  | completeRun r url result =>
    refine ⟨?_, .inr ⟨r, url, result, rfl⟩⟩
    simp only [tx, RunRepository.completeRun] at h
    split at h
    · cases h
    · rename_i ho
      obtain ⟨_, _, _, rfl⟩ := RunRepository.onRun_ok ho
      split at h <;> cases h
      rfl
  | failRun | setRunning | setLogsUrl | setPhase | setFailed =>
    obtain ⟨_, _, _, rfl⟩ := RunRepository.onRun_ok h
    exact ⟨rfl, .inl rfl⟩
  | requeueForRetry r m =>
    simp only [tx, RunRepository.requeueForRetry] at h
    split at h
    · cases h
    · rename_i ho
      obtain ⟨_, _, _, rfl⟩ := RunRepository.onRun_ok ho
      cases h
      exact ⟨rfl, .inl rfl⟩
  | nodeCreate | nodeSave | createProvisioning | setBusy | setDownByRun => cases hq
  | _ =>
    cases h
    exact ⟨rfl, .inl rfl⟩

end

/-- The call as the environment lets it happen. -/
def run (q : Query) (e : Env) (now : Time) (db : Db) : Except Exc q.Resp × Db :=
  e.guard db (match q.tx e.pick now db with
    | .ok (a, db') => (.ok a, db')
    | .error x => (.error x, db))

theorem run_db (q : Query) (e : Env) (now : Time) (db : Db) :
    (q.run e now db).2 = db ∨ ∃ a, q.tx e.pick now db = .ok (a, (q.run e now db).2) := by
  unfold run Env.guard
  cases h : q.tx e.pick now db with
  | error x => cases e.fault <;> exact .inl rfl
  | ok a =>
    cases e.fault with
    | before => exact .inl rfl
    | none | after => exact .inr ⟨a.1, rfl⟩

theorem run_before {q : Query} {e : Env} (he : e.fault = .before) (now : Time) (db : Db) :
    (q.run e now db).2 = db := by rw [run, Env.guard, he]

theorem run_raises {q : Query} {e : Env} {now : Time} {db : Db} {x : Exc}
    (h : q.tx e.pick now db = .error x) : (q.run e now db).2 = db := by
  rcases q.run_db e now db with he | ⟨a, ha⟩
  · exact he
  · cases h.symm.trans ha

theorem run_commits {q : Query} {e : Env} {now : Time} {db db' : Db} {a : q.Resp}
    (he : e.fault ≠ .before) (h : q.tx e.pick now db = .ok (a, db')) :
    (q.run e now db).2 = db' := by
  unfold run Env.guard
  rw [h]
  cases hf : e.fault with
  | before => exact absurd hf he
  | none | after => rfl

theorem fault_of_ok {q : Query} {e : Env} {now : Time} {db : Db} {a : q.Resp}
    (h : (q.run e now db).1 = .ok a) : e.fault ≠ .before := by
  intro hf
  rw [run, Env.guard, hf] at h
  cases h

theorem run_ok {q : Query} {e : Env} {now : Time} {db : Db} {a : q.Resp}
    (h : (q.run e now db).1 = .ok a) : q.tx e.pick now db = .ok (a, (q.run e now db).2) := by
  unfold run Env.guard at h ⊢
  cases hf : e.fault <;> simp only [hf] at h ⊢
  · cases hq : q.tx e.pick now db with
    | error x => simp [hq] at h
    | ok b => simp only [hq] at h; cases h; rfl
  all_goals cases h

theorem run_answers {q : Query} {e : Env} {now : Time} {db db' : Db} {a : q.Resp}
    (he : e.fault = .none) (h : q.tx e.pick now db = .ok (a, db')) :
    (q.run e now db).1 = .ok a := by
  rw [run, Env.guard, he, h]

end Query

inductive S3Call where
  | putObject (key : S3Key) (body : S3Body)
  | copyObject (key source : S3Key)
  | headObject (key : S3Key)
  | getObject (key : S3Key)

namespace S3Call

abbrev Resp : S3Call → Type
  | .putObject .. | .copyObject .. => Unit
  | .headObject _ => Bool
  | .getObject _ => Option S3Body

def run (e : Env) (s : S3) : (q : S3Call) → Except Exc q.Resp × S3
  | .putObject key body => e.guard s (.ok (), Function.update s key (some body))
  | .copyObject key source => e.guard s (match s source with
      | some body => (.ok (), Function.update s key (some body))
      | none => (.error (.other "NoSuchKey"), s))
  | .headObject key => e.guard s (.ok (s key).isSome, s)
  | .getObject key => e.guard s (.ok (s key), s)

theorem run_key (q : S3Call) (e : Env) (s : S3) (key : S3Key) : (q.run e s).2 key = s key ∨
    (∃ body, q = .putObject key body ∧ (q.run e s).2 key = some body) ∨
    ∃ source, q = .copyObject key source := by
  cases q with
  | putObject k body =>
    refine Env.guard_state (fun s' : S3 => s' key = s key ∨ (∃ b, S3Call.putObject k body =
      .putObject key b ∧ s' key = some b) ∨ _) (.inl rfl) ?_
    by_cases hk : key = k
    · subst hk
      exact .inr (.inl ⟨body, rfl, Function.update_self ..⟩)
    · exact .inl (Function.update_of_ne hk ..)
  | copyObject k source =>
    by_cases hk : key = k
    · subst hk
      exact .inr (.inr ⟨source, rfl⟩)
    · refine .inl (Env.guard_state (fun s' : S3 => s' key = s key) rfl ?_)
      split
      · exact Function.update_of_ne hk ..
      · rfl
  | headObject | getObject => exact .inl (Env.guard_state (fun s' : S3 => s' key = s key) rfl rfl)

end S3Call

inductive TfJob where
  | provision | destroy
  deriving DecidableEq, Repr

/-- Everything a coroutine awaits. `enter` and `leave` only record which terraform operation the
task is in. -/
inductive Op where
  | db (q : Query)
  | s3 (q : S3Call)
  | tf (q : TfCall)
  | workspaceExists (r : RunId)
  | modelInfo (model : String)
  | enter (job : TfJob) (r : RunId)
  | leave (job : TfJob) (r : RunId)
  | now
  | uuid4
  | sleep (seconds : Nat)
  | getQuota (gpuType : GpuType)
  | fetchGpuQuota
  | updateQuota (live : GpuType → Option Int)
  | createTask (name : TaskName)

abbrev Op.Resp : Op → Type
  | .db q => Except Exc q.Resp
  | .s3 q => Except Exc q.Resp
  | .tf q => Except Exc q.Resp
  | .workspaceExists _ => Bool
  | .modelInfo _ => Except Exc Bool
  | .enter .. | .leave .. | .sleep _ | .updateQuota _ | .createTask _ => Unit
  | .now => Time
  | .uuid4 => RunId
  | .getQuota _ => Option Int
  | .fetchGpuQuota => Except Exc (GpuType → Option Int)

abbrev sig : Sig := ⟨Op, Op.Resp⟩

/-- The coroutines of the orchestrator. -/
abbrev Async (α : Type) := Prog sig Exc α

def query (q : Query) : Async q.Resp := .call (.db q) Prog.ofExcept
def s3 (q : S3Call) : Async q.Resp := .call (.s3 q) Prog.ofExcept
def tf (q : TfCall) : Async q.Resp := .call (.tf q) Prog.ofExcept
def datetimeNow : Async Time := Prog.emit (S := sig) .now
def createTask (name : TaskName) : Async Unit := Prog.emit (S := sig) (.createTask name)
def sleep (seconds : Nat) : Async Unit := Prog.emit (S := sig) (.sleep seconds)

/-- A terraform operation that task `task` is in the middle of. -/
structure InProgress where
  task : Nat
  job : TfJob
  runId : RunId
  deriving DecidableEq, Repr

structure World where
  db : Db
  s3 : S3
  cloud : Cloud := {}
  quota : GpuType → Option Int
  clock : Time := 0
  busy : List InProgress := []

namespace World

def quotaOf (cfg : Config) : GpuType → Option Int
  | .H100 => some cfg.gpuQuotaH100
  | .L40S => some cfg.gpuQuotaL40s

/-- The answer to a call of task `task` and the world after it. -/
def call (cfg : Config) (task : Nat) (e : Env) (w : World) : (op : Op) → op.Resp × World
  | .db q =>
    let r := q.run e w.clock w.db
    (r.1, { w with db := r.2 })
  | .s3 q =>
    let r := q.run e w.s3
    (r.1, { w with s3 := r.2 })
  | .tf q =>
    let r := w.cloud.run cfg.readFile e q
    (r.1, { w with cloud := r.2 })
  | .workspaceExists r => (w.cloud.workspace r, w)
  | .modelInfo _ => (if e.fault = .none then .ok e.repoFound else .error e.error, w)
  | .enter job r => ((), { w with busy := ⟨task, job, r⟩ :: w.busy })
  | .leave job r => ((), { w with busy := w.busy.erase ⟨task, job, r⟩ })
  | .now => (w.clock, w)
  | .uuid4 => (e.uuid, w)
  | .sleep _ => ((), w)
  | .getQuota g => (w.quota g, w)
  | .fetchGpuQuota => (if e.fault = .none then .ok e.liveQuota else .error e.error, w)
  | .updateQuota live => ((), { w with quota := fun g => (live g).or (w.quota g) })
  | .createTask _ => ((), w)

/-- The world a fresh process finds. -/
def reboot (cfg : Config) (e : Env) (w : World) : World :=
  { w with
    clock := w.clock + e.elapsed
    quota := quotaOf cfg
    busy := []
    cloud := { w.cloud with
      workspace := fun r => w.cloud.workspace r && !e.lostWorkspace r
      server := fun r =>
        if w.busy.any (·.runId = r) then e.serverAfterCrash r else w.cloud.server r
      remoteState := fun r =>
        w.cloud.remoteState r || w.busy.any (·.runId = r) && e.recordedAfterCrash r } }

end World
end GrillPlatform
