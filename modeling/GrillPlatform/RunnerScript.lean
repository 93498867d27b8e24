import GrillPlatform.Shell.Command

/-! `runner.sh`, the benchmark on the GPU machine, in the unit that systemd runs. The log uploads of
`_periodic_log_upload`, a process of its own, are not among the posts. -/

namespace GrillPlatform
open Shell

namespace RunnerScript

/-- What the runner tells the orchestrator. The bodies of its logs are cut before they are sent. -/
inductive Post where
  | phase (phase : String)
  | logs
  | complete (resultsJsonl : String)
  | fail (errorMessage : String)
  deriving DecidableEq, Repr

/-- How an external command ends: its status, how long it takes, and what it writes. -/
structure Answer where
  code : Nat := 0
  seconds : Nat := 0
  size : Nat := 0
  text : String := ""

/-- The environment of the container. -/
structure Params where
  engine : String
  ggufFile : String := ""
  downloadTimeoutSeconds : Nat := 1800
  engineHealthTimeoutSeconds : Nat := 600
  /-- The external commands, in the order they run. -/
  answers : Nat → Answer

structure State where
  /-- The requests, and whether `curl -sf` took the answer for a success. -/
  posts : List (Post × Bool) := []
  answered : Nat := 0
  clock : Nat := 0
  status : Nat := 0
  logsUploaded : Bool := false
  enginePid : Bool := false
  size : Nat := 0
  tmp : Bool := false
  context : String := ""
  downloadRc : Nat := 0
  deadline : Nat := 0
  resultsFile : String := ""
  completePayload : String := ""

def State.ask (a : Answer) (s : State) : State :=
  { s with answered := s.answered + 1, clock := s.clock + a.seconds, status := a.code }

section
variable (params : Params)

/-- An external command, and what becomes of its output. One that no handler is told of, in a
function or before an `||`, goes by its first word. -/
def external (place : Place) (f : Answer → State → State := fun _ s => s) : Cmd State :=
  .simple place fun s =>
    let a := params.answers s.answered
    (a.code, f a (s.ask a))

/-- `curl -sf -X POST` to the orchestrator. -/
def curl (place : Place) (post : State → Post) : Cmd State :=
  external params place fun a s => { s with posts := s.posts ++ [(post s, decide (a.code = 0))] }

def postLogs : Cmd State := .call ⟨0, "_post_logs"⟩ (block [
  assign fun s => { s with tmp := false },
  .or (external params ⟨24, "stat"⟩ fun a s => { s with size := a.size })
    (assign fun s => { s with size := 0 }),
  .cond (test fun s => s.size ≤ 5242880) skip (block [
    external params ⟨28, "mktemp"⟩ fun _ s => { s with tmp := true },
    external params ⟨29, "head"⟩,
    external params ⟨30, "printf"⟩,
    external params ⟨31, "tail"⟩]),
  .or (curl params ⟨34, "curl"⟩ fun _ => .logs) skip,
  .or (test fun s => !s.tmp) (external params ⟨37, "rm"⟩)])

def uploadLogs : Cmd State := .call ⟨143, "upload_logs"⟩ (block [
  .and (test fun s => s.logsUploaded) (.ret 0),
  postLogs params,
  assign fun s => { s with logsUploaded := true },
  .ret 0])

def reportPhase (line : Nat) (phase : String) : Cmd State :=
  .call ⟨line, s!"report_phase \"{phase}\""⟩
    (.or (curl params ⟨55, "curl"⟩ fun _ => .phase phase) skip)

def fail (line : Nat) (message : State → String) : Cmd State := .call ⟨line, "fail"⟩ (block [
  uploadLogs params,
  .or (curl params ⟨63, "curl"⟩ fun s => .fail (message s)) skip,
  .or (.and (test fun s => s.enginePid) (external params ⟨67, "kill"⟩)) skip,
  .or (external params ⟨68, "kill"⟩) skip,
  .exit 1])

def onErr (place : Place) (code : Nat) : Cmd State := .call ⟨place.line, "on_err"⟩ (block [
  external params ⟨75, "tail"⟩ fun a s => { s with context := a.text },
  fail params 76 fun s => s!"line {place.line}: `{place.text}` failed (exit {code})" ++
    s!"\n--- last log lines ---\n{s.context}"])

/-- `hf download`, under `timeout`. -/
def download : Cmd State :=
  .or (external params ⟨93, "timeout"⟩) (assign fun s => { s with downloadRc := s.status })

def downloadModel : Cmd State := block [
  reportPhase params 89 "downloading_model",
  external params ⟨90, "mkdir -p \"$\x7bMODEL_DIR\x7d/$\x7bMODEL\x7d\""⟩,
  assign fun s => { s with downloadRc := 0 },
  .cond (test fun _ => params.ggufFile ≠ "") (download params) (download params),
  .cond (test fun s => s.downloadRc = 124)
    (fail params 98 fun _ => s!"model download timed out after {params.downloadTimeoutSeconds}s")
    (.cond (test fun s => s.downloadRc ≠ 0)
      (fail params 100 fun s => s!"model download failed (exit {s.downloadRc})")
      skip)]

def startEngine : Cmd State := block [
  reportPhase params 104 "starting_engine",
  .cond (test fun _ => params.engine = "vllm")
    (assign fun s => { s with enginePid := true })
    (.cond (test fun _ => params.engine = "llamacpp")
      (block [
        .cond (test fun _ => params.ggufFile ≠ "") skip
          (external params ⟨115, "GGUF=$(ls \"$\x7bMODEL_DIR\x7d/$\x7bMODEL\x7d\"/*.gguf | head -1)"⟩),
        assign fun s => { s with enginePid := true }])
      (fail params 120 fun _ => s!"unknown engine: {params.engine}"))]

def healthcheck : Cmd State := block [
  reportPhase params 124 "healthcheck",
  external params ⟨125, "DEADLINE=$(( $(date +%s) + ENGINE_HEALTH_TIMEOUT_SECONDS ))"⟩ fun _ s =>
    { s with deadline := s.clock + params.engineHealthTimeoutSeconds },
  .untilDo (external params ⟨126, "curl"⟩) (block [
    .and (test fun s => s.deadline ≤ s.clock) (fail params 127 fun _ =>
      s!"engine did not become healthy within {params.engineHealthTimeoutSeconds}s"),
    external params ⟨128, "sleep 5"⟩ fun _ s => { s with clock := s.clock + 5 }])]

def warmup : Cmd State := block [
  reportPhase params 132 "warmup",
  external params ⟨133, "curl -sf -X POST \"http://localhost:$\x7bENGINE_PORT\x7d/v1/completions\"" ++
    " -H \"Content-Type: application/json\"" ++ " -d \"$(jq -n --arg m \"$MODEL\" " ++
    "'\x7bmodel:$m,prompt:\"hello\",max_tokens:1\x7d')\" > /dev/null"⟩]

def benchmark : Cmd State := block [
  reportPhase params 139 "benchmarking",
  external params ⟨140, "llm-grill run \"$SCENARIO\" --output \"$RESULTS_FILE\""⟩ fun a s =>
    { s with resultsFile := a.text }]

def reportSuccess : Cmd State := block [
  uploadLogs params,
  external params ⟨145, "jq -n --rawfile r \"$RESULTS_FILE\" '\x7bresults_jsonl: $r\x7d'" ++
    " > \"$COMPLETE_PAYLOAD\""⟩ fun _ s => { s with completePayload := s.resultsFile },
  curl params ⟨146, "curl -sf -X POST \"$\x7bORCHESTRATOR_URL\x7d/runs/$\x7bRUN_ID\x7d/complete\"" ++
    " -H \"Content-Type: application/json\" -H \"$API_KEY_HEADER\"" ++
    " --data-binary \"@$COMPLETE_PAYLOAD\""⟩ fun s => .complete s.completePayload]

def cleanup : Cmd State := block [
  .or (external params ⟨152, "kill"⟩) skip,
  .or (external params ⟨153, "kill"⟩) skip,
  external params ⟨154, "rm -rf \"$\x7bMODEL_DIR:?\x7d/$\x7bMODEL\x7d\""⟩]

/-- The commands after the trap is set. -/
def main : Cmd State := block [downloadModel params, startEngine params, healthcheck params,
  warmup params, benchmark params, reportSuccess params, cleanup params]

def script : Cmd State := block [
  external params ⟨19, ": > \"$LOG_FILE\""⟩,
  external params ⟨20, "exec"⟩,
  .onErr (onErr params) (main params)]

/-- `ExecStopPost`: `fail-report.sh` when the service has not ended with success. -/
def stopPost (code : Nat) (s : State) : State :=
  if code = 0 then s
  else { s with posts := s.posts ++ [(.fail s!"runner exited: exit-code (exit {code})",
    decide ((params.answers s.answered).code = 0))] }

/-- Rounds of the health check that are enough: each sleeps for five seconds. -/
def maxRounds : Nat := params.engineHealthTimeoutSeconds / 5 + 2

/-- The unit: `docker run`, which may fail to start the container, and what follows. -/
def unit (notStarted : Nat) : Option (Nat × State) :=
  if notStarted ≠ 0 then some (notStarted, stopPost params notStarted {})
  else (eval (maxRounds params) (script params) {} {}).map fun r =>
    (exitStatus r.1, stopPost params (exitStatus r.1) r.2)

end

end RunnerScript
end GrillPlatform
