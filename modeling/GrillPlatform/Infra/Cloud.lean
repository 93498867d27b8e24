import GrillPlatform.Aggregation
import GrillPlatform.Text.Unicode

/-! What terraform works on: the workspace directories, the remote state objects and the servers,
and the errors its output is sorted into. -/

namespace GrillPlatform

/-- The places of `text` where one of the patterns ends, as the rest of the text. -/
def afterAny (patterns : List String) (text : List Char) : List (List Char) :=
  text.tails.flatMap fun t =>
    (patterns.filter fun p => p.toList.isPrefixOf t).map fun p => t.drop p.toList.length

def containsAny (patterns : List String) (text : List Char) : Bool :=
  !(afterAny patterns text).isEmpty

def outOfStockRe (stderr : List Char) : Bool := containsAny ["out of stock"] stderr

def authRe (stderr : List Char) : Bool :=
  containsAny ["access key cannot be empty", "secret key cannot be empty", "invalid access key",
    "invalid secret key", "authentication failed", "unauthorized"] stderr

/-- `(quota|limit).*(exceed|reach)`, where `.` stops at the end of the line. -/
def quotaRe (stderr : List Char) : Bool :=
  (afterAny ["quota", "limit"] stderr).any fun rest =>
    containsAny ["exceed", "reach"] (rest.takeWhile (· ≠ '\n'))

def serverStartRe (stderr : List Char) : Bool :=
  containsAny ["expected state running but found stopped", "expected state running but found error",
    "expected state running but found locked"] stderr

def classify (stderr : String) : Exc :=
  let text := stderr.toList.map foldCase
  if outOfStockRe text then .outOfStockError (strip stderr)
  else if authRe text then .scalewayAuthError (strip stderr)
  else if quotaRe text then .scalewayQuotaError (strip stderr)
  else if serverStartRe text then .serverStartError (strip stderr)
  else .terraformError (strip stderr)

/-- Per run: the local workspace with its `terraform.tfvars`, the state object in the bucket, and
the server. -/
structure Cloud where
  workspace : RunId → Bool := fun _ => false
  tfvars : RunId → Option String := fun _ => none
  remoteState : RunId → Bool := fun _ => false
  server : RunId → Bool := fun _ => false

inductive Fault where
  | none | before | after
  deriving DecidableEq, Repr

/-- What the environment decides at a step. A call may fail before or after it took effect. -/
structure Env where
  fault : Fault := .none
  error : Exc := .other "connection lost"
  /-- Microseconds since the last step. -/
  elapsed : Nat := 0
  /-- The rows an unordered `LIMIT` returns. -/
  pick : List RunId := []
  uuid : RunId := 0
  /-- A terraform command: its exit code, its output, and whether a server is left. -/
  tfOk : Bool := true
  stderr : String := ""
  serverLeft : Bool := false
  output : Option (NodeId × String) := none
  /-- Whether HuggingFace has the repository. -/
  repoFound : Bool := true
  /-- The live quota the cloud reports per type. -/
  liveQuota : GpuType → Option Int := fun _ => none
  /-- A crash: which workspaces are lost, and of the operations terraform was in the middle of,
  whether a server is left and whether the state object has come to record it. -/
  lostWorkspace : RunId → Bool := fun _ => false
  serverAfterCrash : RunId → Bool := fun _ => false
  recordedAfterCrash : RunId → Bool := fun _ => false

/-- A call that may fail on its own, before or after its effect. -/
def Env.guard {α σ : Type} (e : Env) (s : σ) (act : Except Exc α × σ) : Except Exc α × σ :=
  match e.fault with
  | .none => act
  | .before => (.error e.error, s)
  | .after => (.error e.error, act.2)

theorem Env.guard_state {α σ : Type} (P : σ → Prop) {e : Env} {s : σ} {act : Except Exc α × σ}
    (hs : P s) (ha : P act.2) : P (e.guard s act).2 := by
  unfold guard
  split
  · exact ha
  · exact hs
  · exact ha

theorem Env.guard_rel {α σ : Type} (P : σ → σ → Prop) {e e' : Env} {s t : σ}
    {act act' : Except Exc α × σ} (hf : e'.fault = e.fault) (he : e'.error = e.error)
    (hs : P s t) (ha : act.1 = act'.1) (hp : P act.2 act'.2) :
    (e.guard s act).1 = (e'.guard t act').1 ∧ P (e.guard s act).2 (e'.guard t act').2 := by
  unfold guard
  rw [hf, he]
  cases e.fault with
  | none => exact ⟨ha, hp⟩
  | before => exact ⟨rfl, hs⟩
  | after => exact ⟨rfl, hp⟩

/-- The awaited steps of `provision_node` and `destroy_node`. -/
inductive TfCall where
  | stageWorkspace (r : RunId)
  | readScenario (path : String)
  | writeTfvars (r : RunId) (text : String)
  | init (r : RunId)
  | apply (r : RunId)
  | output (r : RunId)
  | destroy (r : RunId)
  | deleteRemoteState (r : RunId)
  | rmtree (r : RunId)

abbrev TfCall.Resp : TfCall → Type
  | .readScenario _ => Option String
  | .output _ => NodeId × String
  | _ => Unit

namespace Cloud

def setWorkspace (c : Cloud) (r : RunId) (b : Bool) : Cloud :=
  { c with workspace := Function.update c.workspace r b }

def setServer (c : Cloud) (r : RunId) (b : Bool) : Cloud :=
  { c with server := Function.update c.server r b }

def setRemoteState (c : Cloud) (r : RunId) (b : Bool) : Cloud :=
  { c with remoteState := Function.update c.remoteState r b }

/-- `_terraform`: a command in a workspace that exists, and its exit code. -/
def terraform {α : Type} (c : Cloud) (r : RunId) (e : Env) (ok : Except Exc α × Cloud)
    (failed : Cloud) : Except Exc α × Cloud :=
  if !c.workspace r then (.error (classify e.stderr), c)
  else if e.tfOk then ok else (.error (classify e.stderr), failed)

/-- A successful `apply` leaves a server that the state object records, a failed one may. A
successful `destroy` removes what the state object records, a failed one may. -/
def run (readFile : String → Option String) (e : Env) (c : Cloud) :
    (q : TfCall) → Except Exc q.Resp × Cloud
  | .stageWorkspace r => e.guard c (.ok (), c.setWorkspace r true)
  | .readScenario path => e.guard c (.ok (readFile path), c)
  | .writeTfvars r text =>
    e.guard c (.ok (), { c with tfvars := Function.update c.tfvars r (some text) })
  | .init r => e.guard c (c.terraform r e (.ok (), c) c)
  | .apply r => e.guard c (c.terraform r e (.ok (), (c.setServer r true).setRemoteState r true)
      ((c.setServer r e.serverLeft).setRemoteState r (c.remoteState r || e.serverLeft)))
  | .output r => e.guard c (c.terraform r e
      (match e.output with
        | some out => (.ok out, c)
        | none => (.error (.other "KeyError"), c)) c)
  | .destroy r => e.guard c (c.terraform r e
      (.ok (), c.setServer r (c.server r && !c.remoteState r))
      (c.setServer r (c.server r && e.serverLeft)))
  | .deleteRemoteState r =>
    (.ok (), if e.fault = .before then c else c.setRemoteState r false)
  | .rmtree r => e.guard c (.ok (), c.setWorkspace r false)

theorem terraform_state {α : Type} (P : Cloud → Prop) {c : Cloud} {r : RunId} {e : Env}
    {ok : Except Exc α × Cloud} {failed : Cloud} (hc : P c) (hok : P ok.2) (hf : P failed) :
    P (c.terraform r e ok failed).2 := by
  unfold terraform
  split
  · exact hc
  · split
    · exact hok
    · exact hf

/-- The run has a server in `c'` only if it has one in `c`. -/
def ServerFrom (r : RunId) (c c' : Cloud) : Prop := c'.server r = true → c.server r = true

theorem serverFrom_setServer {c : Cloud} {r r' : RunId} {b : Bool}
    (h : r' = r → b = true → c.server r = true) : ServerFrom r c (c.setServer r' b) := by
  intro hs
  by_cases hr : r = r'
  · subst hr
    exact h rfl (by simpa [setServer] using hs)
  · simpa [setServer, Function.update_of_ne hr] using hs

theorem server_run {readFile : String → Option String} {e : Env} {c : Cloud} {r : RunId}
    {q : TfCall} (hq : q ≠ .apply r) : ServerFrom r c (c.run readFile e q).2 := by
  cases q with
  | apply r' =>
    have hne : r' = r → ∀ b : Bool, b = true → c.server r = true := fun h =>
      absurd (congrArg _ h) hq
    exact Env.guard_state _ id (terraform_state (ServerFrom r c) id
      (serverFrom_setServer fun h => hne h _) (serverFrom_setServer fun h => hne h _))
  | destroy r' =>
    refine Env.guard_state _ id (terraform_state (ServerFrom r c) id
      (serverFrom_setServer ?_) (serverFrom_setServer ?_))
    · rintro rfl h
      exact (Bool.and_eq_true_iff.1 h).1
    · rintro rfl h
      exact (Bool.and_eq_true_iff.1 h).1
  | deleteRemoteState r' =>
    simp only [run]
    split <;> exact id
  | init r' => exact Env.guard_state _ id (terraform_state (ServerFrom r c) id id id)
  | output r' =>
    refine Env.guard_state _ id (terraform_state (ServerFrom r c) id ?_ id)
    split <;> exact id
  | _ => exact Env.guard_state (ServerFrom r c) id id

end Cloud
end GrillPlatform
