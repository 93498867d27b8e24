import GrillPlatform.World

/-! `provision_node` and `destroy_node`, step by step, with the variables file they write. -/

namespace GrillPlatform
open Coroutine

/-- `str.replace(pat, rep)` for a non-empty `pat`; `skip` characters belong to the last match. -/
def replaceFrom (pat rep : List Char) : Nat → List Char → List Char
  | _, [] => []
  | skip + 1, _ :: cs => replaceFrom pat rep skip cs
  | 0, c :: cs =>
    if pat.isPrefixOf (c :: cs) then rep ++ replaceFrom pat rep (pat.length - 1) cs
    else c :: replaceFrom pat rep 0 cs

def replaceAll (pat rep s : String) : String :=
  String.ofList (replaceFrom pat.toList rep.toList 0 s.toList)

/-- `\d{1,3}` at the start of a text, with the rest. -/
def octet (text : List Char) : Option (List Char × List Char) :=
  let ds := (text.take 3).takeWhile isDecimal
  if ds = [] then none else some (ds, text.drop ds.length)

def dropPrefix (p : List Char) (text : List Char) : Option (List Char) :=
  if p.isPrefixOf text then some (text.drop p.length) else none

/-- `https?://(\d{1,3}(?:\.\d{1,3}){3})` at the start of the URL. -/
def extractIp (url : String) : Option String := do
  let text := url.toList
  let rest ← dropPrefix "http".toList text
  let rest ← dropPrefix "://".toList ((dropPrefix ['s'] rest).getD rest)
  let (a, rest) ← octet rest
  let (b, rest) ← octet (← dropPrefix ['.'] rest)
  let (c, rest) ← octet (← dropPrefix ['.'] rest)
  let (d, _) ← octet (← dropPrefix ['.'] rest)
  return String.ofList (a ++ '.' :: b ++ '.' :: c ++ '.' :: d)

/-- `[x.strip() for x in s.split(",") if x.strip()]`. -/
def commaList (s : String) : List String :=
  ((s.toList.splitOn ',').map fun x => strip (String.ofList x)).filter (· ≠ "")

/-- A list of quoted strings in HCL. -/
def hclList (xs : List String) : String :=
  "[" ++ String.intercalate ", " (xs.map fun x => "\"" ++ x ++ "\"") ++ "]"

def instanceType : GpuType → String
  | .L40S => "L40S-1-48G"
  | .H100 => "H100-1-80G"

def adminCidrs (cfg : Config) : List String :=
  let cidrs := commaList cfg.adminCidrs
  match extractIp cfg.orchestratorUrl with
  | some ip => if ip ++ "/32" ∈ cidrs then cidrs else cidrs ++ [ip ++ "/32"]
  | none => cidrs

/-- The scenario text, as `read_text` returns it, on its way into the heredoc. -/
def scenarioContent (text model : String) : String :=
  replaceAll "%\x7b" "%%\x7b" (replaceAll "$\x7b" "$$\x7b" (replaceAll "$\x7bMODEL\x7d" model text))

/-- The text of `terraform.tfvars`. -/
def tfvars (cfg : Config) (run : Run) (scenario : String) : String :=
  let quoted (name value : String) : String := name ++ " = \"" ++ value ++ "\"\n"
  let dockerImage := if run.engine.value = "vllm" then cfg.dockerImageVllm
    else cfg.dockerImageLlamacpp
  let instance_ := if cfg.gpuInstanceTypeOverride ≠ "" then cfg.gpuInstanceTypeOverride
    else instanceType run.gpuTypeRequired
  quoted "run_id          " (uuidStr run.id) ++
  quoted "gpu_type        " run.gpuTypeRequired.value ++
  quoted "instance_type   " instance_ ++
  quoted "orchestrator_url" cfg.orchestratorUrl ++
  quoted "gpu_zone        " cfg.gpuZone ++
  "ssh_public_keys  = " ++ hclList (commaList cfg.sshPublicKeys) ++ "\n" ++
  "admin_cidrs      = " ++ hclList (adminCidrs cfg) ++ "\n" ++
  quoted "model           " run.model ++
  quoted "engine          " run.engine.value ++
  quoted "scenario_path   " run.scenarioPath ++
  quoted "gguf_file       " (run.ggufFile.getD "") ++
  quoted "docker_image    " dockerImage ++
  "download_timeout_seconds = " ++ toString cfg.downloadTimeoutSeconds ++ "\n" ++
  "engine_health_timeout_seconds = " ++ toString cfg.engineHealthTimeoutSeconds ++ "\n" ++
  "scenario_content = <<EOT_SCENARIO\n" ++ scenarioContent scenario run.model ++
  "\nEOT_SCENARIO\n"

/-- Marks a terraform operation of the run from its first step to its return or exception. -/
def during {α : Type} (job : TfJob) (r : RunId) (body : Async α) : Async α := do
  Prog.emit (S := sig) (.enter job r)
  let out ← body.attempt
  Prog.emit (S := sig) (.leave job r)
  Prog.ofExcept out

def provisionSteps (cfg : Config) (run : Run) : Async (NodeId × String) := do
  tf (.stageWorkspace run.id)
  let scenarioFile := cfg.resolve run.scenarioPath
  match ← tf (.readScenario scenarioFile) with
  | none => throw (.terraformError s!"scenario file not found: {scenarioFile}")
  | some scenario =>
    tf (.writeTfvars run.id (tfvars cfg run scenario))
    tf (.init run.id)
    tf (.apply run.id)
    tf (.output run.id)

def provisionNode (cfg : Config) (run : Run) : Async (NodeId × String) :=
  during .provision run.id (provisionSteps cfg run)

/-- A workspace that is not there counts as destroyed. -/
def destroySteps (r : RunId) : Async Unit := do
  if !(← Prog.emit (S := sig) (.workspaceExists r)) then
    pure ()
  else
    tf (.destroy r)
    tf (.deleteRemoteState r)
    tf (.rmtree r)

def destroyNode (r : RunId) : Async Unit := during .destroy r (destroySteps r)

/-- The run a terraform step works on; reading the scenario file concerns none. -/
def TfCall.runId : TfCall → Option RunId
  | .stageWorkspace r | .writeTfvars r _ | .init r | .apply r | .output r | .destroy r
  | .deleteRemoteState r | .rmtree r => some r
  | .readScenario _ => none

/-- A terraform step of run `r` other than `destroy`. -/
def ProvisionOp (r : RunId) : Op → Prop
  | .tf (.destroy _) => False
  | .tf q => ∀ r', q.runId = some r' → r' = r
  | _ => False

/-- A terraform step of run `r` other than `apply`. -/
def DestroyOp (r : RunId) : Op → Prop
  | .tf (.apply _) => False
  | .tf q => ∀ r', q.runId = some r' → r' = r
  | .workspaceExists r' => r' = r
  | _ => False

theorem calls_tf {A : Op → Prop} {q : TfCall} (h : A (.tf q)) :
    (tf q).Calls (S := sig) A := ⟨h, fun _ => Prog.calls_ofExcept _⟩

theorem calls_query {A : Op → Prop} {q : Query} (h : A (.db q)) :
    (query q).Calls (S := sig) A := ⟨h, fun _ => Prog.calls_ofExcept _⟩

theorem calls_s3 {A : Op → Prop} {q : S3Call} (h : A (.s3 q)) :
    (s3 q).Calls (S := sig) A := ⟨h, fun _ => Prog.calls_ofExcept _⟩

theorem calls_emit {A : Op → Prop} {op : Op} (h : A op) :
    (Prog.emit (S := sig) (X := Exc) op).Calls A := ⟨h, fun _ => trivial⟩

theorem provisionSteps_calls (cfg : Config) (run : Run) :
    (provisionSteps cfg run).Calls (S := sig) (ProvisionOp run.id) := by
  unfold provisionSteps
  refine Prog.calls_bind (calls_tf ?_) fun _ => Prog.calls_bind (calls_tf ?_) fun s => ?_
  · simp [ProvisionOp, TfCall.runId]
  · simp [ProvisionOp, TfCall.runId]
  · cases s with
    | none => trivial
    | some s =>
      refine Prog.calls_bind (calls_tf ?_) fun _ => Prog.calls_bind (calls_tf ?_) fun _ =>
        Prog.calls_bind (calls_tf ?_) fun _ => calls_tf ?_ <;>
      simp [ProvisionOp, TfCall.runId]

theorem destroySteps_calls (r : RunId) : (destroySteps r).Calls (S := sig) (DestroyOp r) := by
  unfold destroySteps
  refine Prog.calls_bind (calls_emit rfl) fun b => ?_
  cases b with
  | false => trivial
  | true =>
    refine Prog.calls_bind (calls_tf ?_) fun _ => Prog.calls_bind (calls_tf ?_) fun _ =>
      calls_tf ?_ <;>
    simp [DestroyOp, TfCall.runId]

theorem calls_during {α : Type} {A : Op → Prop} {job : TfJob} {r : RunId} {body : Async α}
    (he : A (.enter job r)) (hl : A (.leave job r)) (hb : body.Calls (S := sig) A) :
    (during job r body).Calls (S := sig) A :=
  Prog.calls_bind (calls_emit he) fun _ => Prog.calls_bind (Prog.calls_attempt hb) fun _ =>
    Prog.calls_bind (calls_emit hl) fun _ => Prog.calls_ofExcept _

end GrillPlatform
