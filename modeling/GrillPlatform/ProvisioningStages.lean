import GrillPlatform.Footprint

/-! The course of `handle_queued_run`: which call follows which, by the answers. -/

namespace GrillPlatform
open Coroutine
variable {cfg : Config}

def Works (op : Op) : Prop := match op with
  | .tf _ | .workspaceExists _ | .enter .. | .leave .. => True
  | _ => False

theorem works_of_provisionOp {r : RunId} (op : Op) (h : ProvisionOp r op) : Works op := by
  unfold ProvisionOp at h
  split at h <;> first | exact h.elim | trivial

theorem works_of_destroyOp {r : RunId} (op : Op) (h : DestroyOp r op) : Works op := by
  unfold DestroyOp at h
  split at h <;> first | exact h.elim | trivial

/-- The exception a step of `provision_node` ends it with. -/
def TfCall.exc (q : TfCall) (a : Except Exc q.Resp) : Option Exc :=
  match q, a with
  | .readScenario path, .ok none => some (.terraformError s!"scenario file not found: {path}")
  | _, .error x => some x
  | _, .ok _ => none

/-- Whether an exception of `provision_node` is one of the three after which the run is queued
again. -/
def isCapacity (x : Exc) : Bool := (capacityReason x).isSome

/-- How far the task is: `working` up to the end of `provision_node` and in the calls after it,
`attended` once the cleanup has tried its destroy, `lowered` when the guard has marked the node
down. -/
inductive Phase where
  | fresh
  | working (exc : Option Exc)
  | attended
  | requeued (attempt : Option Nat)
  | downed
  | guarded
  | lowered
  | closed
  | absent

namespace Phase

def allows (r : RunId) : Phase → Op → Prop
  | .absent, _ => True
  | .fresh, .db (.createProvisioning r' _) => r' = r
  | .working none, .db (.runGet r') | .working none, .db (.setBusy r' ..)
  | .working none, .db (.setRunning r' _) => r' = r
  | .working none, .tf q => ProvisionOp r (.tf q)
  | .working none, .now | .downed, .now | .lowered, .now => True
  | .working (some x), .workspaceExists r' | .working (some x), .tf (.destroy r') =>
    r' = r ∧ isCapacity x = true
  | .working (some x), .db (.setDownByRun r') => r' = r ∧ isCapacity x = false
  | .working _, .enter .. | .working _, .leave .. | .attended, .leave ..
  | .attended, .tf (.deleteRemoteState _) | .attended, .tf (.rmtree _) => True
  | .attended, .db (.requeueForRetry r' _) => r' = r
  | .requeued _, .db (.setDownByRun r') | .guarded, .db (.setDownByRun r')
  | .downed, .db (.setFailed r' ..) | .lowered, .db (.setFailed r' ..) => r' = r
  | _, _ => False

def answered : Phase → (q : Query) → q.Resp → Phase
  | .fresh, _, _ => .working none
  | .working _, .runGet _, none => .absent
  | .working _, .setRunning .., _ => .closed
  | .working _, .setDownByRun _, _ => .downed
  | .attended, .requeueForRetry .., n => .requeued n
  | .requeued none, _, _ => .downed
  | .requeued (some _), _, _ => .closed
  | .downed, _, _ => .closed
  | .guarded, _, _ => .lowered
  | .lowered, _, _ => .closed
  | γ, _, _ => γ

/-- The phase after one that has raised: the guard is next, or was at work. -/
def raised : Phase → Phase
  | .absent => .absent
  | .guarded | .lowered => .closed
  | _ => .guarded

def after (γ : Phase) (op : Op) (a : op.Resp) : Phase :=
  match γ, op, a with
  | γ, .db q, .ok b => γ.answered q b
  | γ, .db _, .error _ => γ.raised
  | .working none, .tf q, b => .working (q.exc b)
  | .working (some _), .tf _, _ => .attended
  | .working (some _), .workspaceExists _, false => .attended
  | γ, _, _ => γ

end Phase

def course (r : RunId) : Protocol sig Phase := ⟨Phase.allows r, Phase.after⟩

/-- The task is over, or has found no run. -/
def Phase.Final (γ : Phase) : Prop := γ = .closed ∨ γ = .absent

theorem maintains_absent {α : Type} {r : RunId} (p : Async α) :
    p.Maintains (course r) fun γ => γ = .absent := by
  refine (Prog.calls_true p).maintains fun γ op hγ _ => ?_
  subst hγ
  refine ⟨trivial, fun a => ?_⟩
  cases op with
  | db q => cases a <;> rfl
  | _ => rfl

/-- The end of the part under the guard. -/
def Phase.Unguarded (γ : Phase) : Except Exc Unit → Prop
  | .ok _ => γ.Final
  | .error _ => γ = .guarded ∨ γ = .absent

section
variable {r : RunId}

theorem setFailed_downed (reason : String) :
    (setFailed r reason).Follows (course r) Phase.Unguarded .downed :=
  ⟨trivial, fun _ => follows_query_bind rfl (fun _ => .inl rfl) fun _ => .inl rfl⟩

theorem fail_refused {x : Exc} (hx : isCapacity x = false) (reason : String) :
    (fail r reason).Follows (course r) Phase.Unguarded (.working (some x)) :=
  follows_query_bind ⟨rfl, hx⟩ (fun _ => setFailed_downed reason) fun _ => .inl rfl

theorem fail_guarded (reason : String) :
    (fail r reason).Follows (course r) (fun γ _ => γ.Final) .guarded :=
  follows_query_bind rfl (fun _ => ⟨trivial, fun _ =>
    follows_query_bind rfl (fun _ => .inl rfl) fun _ => .inl rfl⟩) fun _ => .inl rfl

theorem destroySteps_course {x : Exc} (hx : isCapacity x = true) :
    (destroySteps r).Follows (course r) (fun γ _ => γ = .attended) (.working (some x)) := by
  refine ⟨⟨rfl, hx⟩, fun found => ?_⟩
  cases found with
  | false => exact rfl
  | true =>
    refine ⟨⟨rfl, hx⟩, fun a => ?_⟩
    cases a with
    | error _ => exact rfl
    | ok _ =>
      -- the server is dealt with; the state object and the workspace remain
      have hrest : (do tf (.deleteRemoteState r)
                       tf (.rmtree r) : Async Unit).Maintains (course r) (· = .attended) := by
        refine Prog.maintains_bind ?_ fun _ => ?_ <;>
        · rintro γ rfl
          exact ⟨trivial, fun a => (Prog.follows_ofExcept a).2 rfl⟩
      exact hrest _ rfl

theorem safeDestroy_course {x : Exc} (hx : isCapacity x = true) :
    (safeDestroy r).Follows (course r) (fun γ out => out = .ok () ∧ γ = .attended)
      (.working (some x)) := by
  refine Prog.follows_tryCatch.2 ⟨trivial, fun _ => ?_⟩
  refine Prog.follows_attempt_bind.2 ((destroySteps_course hx).mono fun γ out hγ => ?_)
  subst hγ
  refine ⟨trivial, fun _ => (Prog.follows_ofExcept out).2 ?_⟩
  cases out with
  | ok _ => exact ⟨rfl, rfl⟩
  | error _ => exact ⟨rfl, rfl⟩

theorem requeueOrGiveUp_course (cfg : Config) {x : Exc} (hx : isCapacity x = true)
    (reason : String) : (requeueOrGiveUp cfg r reason).Follows (course r) Phase.Unguarded
      (.working (some x)) := by
  refine Prog.follows_bind.2 ((safeDestroy_course hx).mono fun γ out hγ => ?_)
  obtain ⟨rfl, rfl⟩ := hγ
  refine follows_query_bind rfl (fun attempt => ?_) fun _ => .inl rfl
  refine follows_query_bind rfl (fun _ => ?_) fun _ => .inl rfl
  cases attempt with
  | none => exact setFailed_downed _
  | some n => exact .inl rfl

theorem onProvisionError_course (cfg : Config) (x : Exc) :
    (onProvisionError cfg r x).Follows (course r) Phase.Unguarded (.working (some x)) := by
  unfold onProvisionError
  split
  · rename_i reason hr
    exact requeueOrGiveUp_course cfg (by rw [isCapacity, hr]; rfl) reason
  · rename_i hr
    have hx : isCapacity x = false := by rw [isCapacity, hr]; rfl
    split <;> exact fail_refused hx _

theorem markRunning_course (i : NodeId) (ip : String) :
    (markRunning r i ip).Follows (course r) Phase.Unguarded (.working none) := by
  refine follows_query_bind rfl (fun _ => ⟨trivial, fun now => ?_⟩) fun _ => .inl rfl
  exact follows_query_bind rfl (fun _ => .inl rfl) fun _ => .inl rfl

/-- How `provision_node` comes out, as the phase has it. -/
def Phase.Provisioned {α : Type} (γ : Phase) : Except Exc α → Prop
  | .ok _ => γ = .working none
  | .error x => γ = .working (some x)

theorem tf_course {q : TfCall} (hq : ProvisionOp r (.tf q)) (hs : ∀ path, q ≠ .readScenario path) :
    (tf q).Follows (course r) Phase.Provisioned (.working none) := by
  refine ⟨hq, fun a => (Prog.follows_ofExcept a).2 ?_⟩
  cases a with
  | error x => cases q <;> rfl
  | ok b => cases q <;> first | rfl | exact absurd rfl (hs _)

theorem tf_bind_course {α : Type} {q : TfCall} {f : q.Resp → Async α}
    (hq : ProvisionOp r (.tf q)) (hs : ∀ path, q ≠ .readScenario path)
    (hf : ∀ a, (f a).Follows (course r) Phase.Provisioned (.working none)) :
    ((tf q).bind f).Follows (course r) Phase.Provisioned (.working none) := by
  refine Prog.follows_bind.2 ((tf_course hq hs).mono fun γ out hγ => ?_)
  cases out with
  | ok a => exact hγ ▸ hf a
  | error x => exact hγ

theorem provisionSteps_course (cfg : Config) (run : Run) :
    (provisionSteps cfg run).Follows (course run.id) Phase.Provisioned (.working none) := by
  have hon : ∀ q : TfCall, q.runId = some run.id → (∀ r', q ≠ .destroy r') →
      ProvisionOp run.id (.tf q) := by
    intro q hq hd
    cases q with
    | destroy r' => exact absurd rfl (hd r')
    | _ =>
      intro r' hr'
      cases hr'.symm.trans hq
      rfl
  refine tf_bind_course (hon _ rfl nofun) nofun fun _ => ?_
  refine Prog.follows_bind.2 ⟨nofun, fun a => (Prog.follows_ofExcept a).2 ?_⟩
  match a with
  | .error x => exact rfl
  | .ok none => exact rfl
  | .ok (some scenario) =>
    refine tf_bind_course (hon _ rfl nofun) nofun fun _ => ?_
    refine tf_bind_course (hon _ rfl nofun) nofun fun _ => ?_
    refine tf_bind_course (hon _ rfl nofun) nofun fun _ => ?_
    exact tf_course (hon _ rfl nofun) nofun

theorem provisionNode_course (cfg : Config) (run : Run) :
    (provisionNode cfg run).Follows (course run.id) Phase.Provisioned (.working none) := by
  refine ⟨trivial, fun _ => Prog.follows_attempt_bind.2 ?_⟩
  refine (provisionSteps_course cfg run).mono fun γ out hγ => ?_
  cases out with
  | ok a =>
    obtain rfl : γ = .working none := hγ
    exact ⟨trivial, fun _ => rfl⟩
  | error x =>
    obtain rfl : γ = .working (some x) := hγ
    exact ⟨trivial, fun _ => rfl⟩

theorem provisionUnderPermit_course (cfg : Config) (r : RunId) (g : GpuType) :
    (provisionUnderPermit cfg r g).Follows (course r) Phase.Unguarded .fresh := by
  refine follows_query_bind rfl (fun _ => ?_) fun _ => .inl rfl
  refine follows_query_bind rfl (fun found => ?_) fun _ => .inl rfl
  match found with
  | none =>
    refine (maintains_absent _).follows rfl fun γ out hγ => ?_
    cases out with
    | ok _ => exact .inr hγ
    | error _ => exact .inr hγ
  | some ⟨run, hrun⟩ =>
    subst hrun
    refine Prog.follows_attempt_bind.2 ((provisionNode_course cfg run).mono fun γ out hγ => ?_)
    cases out with
    | ok node =>
      obtain rfl : γ = .working none := hγ
      exact markRunning_course _ _
    | error exc =>
      obtain rfl : γ = .working (some exc) := hγ
      exact onProvisionError_course cfg exc

theorem handleQueuedRun_course (cfg : Config) (r : RunId) (g : GpuType) :
    (handleQueuedRun cfg r g).Follows (course r) (fun γ _ => γ.Final) .fresh := by
  refine Prog.follows_tryCatch.2 ((provisionUnderPermit_course cfg r g).mono fun γ out hγ => ?_)
  cases out with
  | ok _ => exact hγ
  | error x =>
    rcases hγ with rfl | rfl
    · exact fail_guarded _
    · exact (maintains_absent _).follows rfl fun _ _ h => .inr h

end
end GrillPlatform
