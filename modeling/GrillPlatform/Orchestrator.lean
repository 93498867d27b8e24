import GrillPlatform.Infra.Terraform

/-! `orchestrator.py`: provisioning, release, recovery, the two watchdogs and the poll loop. -/

namespace GrillPlatform
open Coroutine

def minutes (n : Int) : Time := n * 60 * 1000000

/-- Best effort: on any failure the configured quota is kept. -/
def refreshGpuQuota : Async Unit := do
  match ← Prog.emit (S := sig) .fetchGpuQuota with
  | .error _ => pure ()
  | .ok live => Prog.emit (S := sig) (.updateQuota live)

def setFailed (r : RunId) (reason : String) : Async Unit := do
  let now ← datetimeNow
  let _ ← query (.setFailed r now (some reason))

def fail (r : RunId) (reason : String) : Async Unit := do
  query (.setDownByRun r)
  setFailed r reason

def safeDestroy (r : RunId) : Async Unit := (destroyNode r).tryCatch fun _ => pure ()

/-- The three errors after which a run is queued again. -/
def capacityReason : Exc → Option String
  | .outOfStockError _ => some "out of stock"
  | .scalewayQuotaError _ => some "quota exceeded"
  | .serverStartError _ => some "server failed to start"
  | _ => none

def requeueOrGiveUp (cfg : Config) (r : RunId) (reason : String) : Async Unit := do
  safeDestroy r
  let attempt ← query (.requeueForRetry r cfg.provisionMaxAttempts)
  query (.setDownByRun r)
  match attempt with
  | none => setFailed r s!"{reason} after {cfg.provisionMaxAttempts} attempts"
  | some _ => pure ()

/-- The `except` clauses around `provision_node`. -/
def onProvisionError (cfg : Config) (r : RunId) (exc : Exc) : Async Unit :=
  match capacityReason exc with
  | some reason => requeueOrGiveUp cfg r reason
  | none =>
    match exc with
    | .scalewayAuthError _ => fail r s!"scaleway auth: {exc.str}"
    | .terraformError _ => fail r s!"terraform: {exc.str}"
    | _ => fail r exc.str

def markRunning (r : RunId) (instanceId : NodeId) (publicIp : String) : Async Unit := do
  query (.setBusy r instanceId publicIp)
  let now ← datetimeNow
  let _ ← query (.setRunning r now)

def provisionUnderPermit (cfg : Config) (r : RunId) (gpuType : GpuType) : Async Unit := do
  let _ ← query (.createProvisioning r gpuType)
  match ← query (.runGet r) with
  | none => query (.setDownByRun r)
  | some run =>
    match ← (provisionNode cfg run.1).attempt with
    | .error exc => onProvisionError cfg r exc
    | .ok (instanceId, publicIp) => markRunning r instanceId publicIp

def handleQueuedRun (cfg : Config) (r : RunId) (gpuType : GpuType) : Async Unit :=
  (provisionUnderPermit cfg r gpuType).tryCatch fun exc => fail r s!"unhandled: {exc.str}"

/-- One attempt of `release_node`: did the destroy and the node update both go through? -/
def releaseAttempt (r : RunId) : Async Bool :=
  (do destroyNode r
      query (.setDownByRun r)
      return true).tryCatch fun _ => pure false

def releaseFrom (r : RunId) : List Nat → Async Unit
  | [] => pure ()
  | attempt :: rest => do
    if ← releaseAttempt r then pure ()
    else if attempt < 3 then do
      sleep (attempt * 30)
      releaseFrom r rest
    else releaseFrom r rest

def releaseNode (r : RunId) : Async Unit := releaseFrom r [1, 2, 3]

def recoverLeakedNodes : Async Unit := do
  let leaked ← query .getLeaked
  Prog.forEach leaked fun r => createTask (.releaseNode r)

def recoverOrphanedProvisioningRun (cfg : Config) (r : RunId) : Async Unit := do
  releaseNode r
  match ← query (.requeueForRetry r cfg.provisionMaxAttempts) with
  | none => setFailed r "orphaned in provisioning after restart"
  | some _ => pure ()

def recoverOrphanedProvisioning : Async Unit := do
  let orphaned ← query .getOrphanedProvisioning
  Prog.forEach orphaned fun r => createTask (.recoverOrphanedProvisioningRun r)

def abortStuckRunning (cfg : Config) (r : RunId) (lastPhase : Option String) : Async Unit := do
  let phaseInfo := match lastPhase with
    | some phase => if phase = "" then " (no phase reported)" else s!" (last phase: {phase})"
    | none => " (no phase reported)"
  releaseNode r
  setFailed r s!"timeout: no /complete after {cfg.runRunningTimeoutMinutes} min{phaseInfo}"

def reapStuckRunning (cfg : Config) : Async Unit := do
  let now ← datetimeNow
  let stuck ← query (.claimRunningTimedOut (now - minutes cfg.runRunningTimeoutMinutes))
  Prog.forEach stuck fun s => createTask (.abortStuckRunning s.1 s.2)

def abortStuckProvisioning (r : RunId) : Async Unit := releaseNode r

def reapStuckProvisioning (cfg : Config) : Async Unit := do
  let now ← datetimeNow
  let stuck ← query (.claimProvisioningTimedOut (now - minutes cfg.runProvisioningTimeoutMinutes))
  Prog.forEach stuck fun r => createTask (.abortStuckProvisioning r)

/-- The capacity gate for one GPU type, against the counts taken at the start of the tick. -/
def claimType (live : GpuType → Nat) (gpuType : GpuType) : Async Unit := do
  match ← Prog.emit (S := sig) (.getQuota gpuType) with
  | none => pure ()
  | some quota =>
    let claimed ← query (.claimQueued gpuType (quota - live gpuType))
    Prog.forEach claimed fun c => createTask (.handleQueuedRun c.1 c.2)

def pollOnce (cfg : Config) : Async Unit := do
  let live ← query .countLiveByType
  Prog.forEach GpuType.all (claimType live)
  reapStuckProvisioning cfg
  reapStuckRunning cfg

/-- One pass of `while True`; the next pass is a new task. -/
def pollTick (cfg : Config) : Async Unit := do
  (pollOnce cfg).tryCatch fun _ => pure ()
  sleep cfg.pollIntervalSeconds
  createTask .pollTick

def pollingLoop : Async Unit := do
  refreshGpuQuota
  recoverLeakedNodes
  recoverOrphanedProvisioning
  createTask .pollTick

end GrillPlatform
