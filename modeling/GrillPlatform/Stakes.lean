import GrillPlatform.Coroutine.Watch
import GrillPlatform.Footprint

/-! Stakes. A task that has claimed a run, or has read its status behind a guard, has a stake in it
until its own write of the status; meanwhile it reckons with certain statuses only. -/

namespace GrillPlatform
open Coroutine

/-- What a task is about to do with the runs it has a stake in: an attempt or a recovery requeues
its run, sets it running or gives it up, others fail or complete it. -/
inductive Window where
  | provision | giveUp | complete
  deriving DecidableEq

namespace Window

/-- The statuses a task reckons with. -/
def lets : Window → List RunStatus
  | .provision => [.provisioning]
  | .giveUp => [.provisioning, .running, .failed]
  | .complete => [.running, .done]

/-- The guard: the statuses that a read must find to bring a stake. -/
def opens : Window → List RunStatus
  | .provision => []
  | .giveUp => [.provisioning, .running]
  | .complete => [.running]

end Window

/-- The runs a task has a stake in, and those it has claimed as timed out. -/
structure Stake where
  window : Window
  runs : List RunId := []
  reaped : List RunId := []

def TaskName.stake : TaskName → Stake
  | .pollingLoop | .pollTick => { window := .provision }
  | .handleQueuedRun r _ | .recoverOrphanedProvisioningRun r => { window := .provision, runs := [r] }
  | .abortStuckRunning r _ => { window := .giveUp, reaped := [r] }
  | .request (.complete ..) => { window := .complete }
  | _ => { window := .giveUp }

namespace Stake

def allows (γ : Stake) : Op → Prop
  | .db (.completeRun r _ result) => γ.window = .complete ∧ r ∈ γ.runs ∧ result.runId = r
  | .db (.failRun r _) => γ.window = .giveUp ∧ r ∈ γ.runs
  | .db (.setRunning r _) | .db (.requeueForRetry r _) => γ.window = .provision ∧ r ∈ γ.runs
  | .db (.setFailed ..) => γ.window ≠ .complete
  | .db (.claimQueued ..) | .db .getOrphanedProvisioning => γ.window = .provision
  | .db (.claimRunningTimedOut _) | .db (.claimProvisioningTimedOut _) => γ.runs = []
  | .createTask n => n.stake.runs ⊆ γ.runs ∧ (n.stake.runs = [] ∨ γ.window = .provision) ∧
      n.stake.reaped ⊆ γ.reaped
  | _ => True

def drop (γ : Stake) (r : RunId) : Stake := { γ with runs := γ.runs.filter (· ≠ r) }

def late (γ : Stake) : Stake := { γ with window := .giveUp }

def after (γ : Stake) : (op : Op) → op.Resp → Stake
  | .db (.runGet r), .ok (some run) =>
    if run.1.status ∈ γ.window.opens then { γ with runs := r :: γ.runs } else γ
  | .db (.claimQueued ..), .ok claimed => { γ with runs := claimed.map Prod.fst ++ γ.runs }
  | .db .getOrphanedProvisioning, .ok orphaned => { γ with runs := orphaned ++ γ.runs }
  | .db (.claimRunningTimedOut _), .ok stuck =>
    { γ with reaped := stuck.map Prod.fst ++ γ.reaped }
  | .db (.requeueForRetry r _), .ok (some _) => γ.drop r
  | .db (.setRunning r _), .ok _ | .db (.completeRun r ..), .ok _ | .db (.failRun r _), .ok _
  | .db (.setFailed r ..), .ok _ => γ.drop r
  | .db (.requeueForRetry ..), _ | .db (.setRunning ..), _ | .db (.setFailed ..), _ => γ.late
  | .createTask n, _ => { γ with runs := γ.runs.diff n.stake.runs }
  | _, _ => γ

def Calm : Op → Prop
  | .db (.runGet _) | .db (.claimQueued ..) | .db .getOrphanedProvisioning
  | .db (.claimRunningTimedOut _) | .db (.claimProvisioningTimedOut _) | .db (.requeueForRetry ..)
  | .db (.setRunning ..) | .db (.completeRun ..) | .db (.failRun ..) | .db (.setFailed ..)
  | .createTask _ => False
  | _ => True

theorem after_calm {γ : Stake} {op : Op} (h : Calm op) :
    γ.allows op ∧ ∀ a, γ.after op a = γ := by
  cases op with
  | db q => cases q <;> first | exact h.elim | exact ⟨trivial, fun _ => rfl⟩
  | createTask => exact h.elim
  | _ => exact ⟨trivial, fun _ => rfl⟩

end Stake

def staking : Protocol sig Stake := ⟨Stake.allows, Stake.after⟩

section
variable {α : Type} {γ γ₀ : Stake} {r : RunId}

theorem calm_maintains {I : Stake → Prop} {p : Async α} (hp : p.Calls (S := sig) Stake.Calm) :
    p.Maintains staking I :=
  hp.maintains fun _ _ h hop => ⟨(Stake.after_calm hop).1, fun a => by
    rw [show staking.post _ _ a = _ from (Stake.after_calm hop).2 a]; exact h⟩

theorem query_calm {I : Stake → Prop} (q : Query) (h : Stake.Calm (.db q)) :
    (query q).Maintains staking I := calm_maintains (calls_query h)

theorem now_calm {I : Stake → Prop} : datetimeNow.Maintains staking I :=
  calm_maintains (calls_emit trivial)

theorem calm_of_provisionOp (op : Op) (h : ProvisionOp r op) : Stake.Calm op := by
  unfold ProvisionOp at h
  split at h <;> first | exact h.elim | trivial

theorem calm_of_destroyOp (op : Op) (h : DestroyOp r op) : Stake.Calm op := by
  unfold DestroyOp at h
  split at h <;> first | exact h.elim | trivial

theorem calm_of_releaseOp (op : Op) (h : ReleaseOp r op) : Stake.Calm op := by
  unfold ReleaseOp at h
  split at h <;> first | trivial | exact calm_of_destroyOp _ h

/-- The states of a task that will only fail its run, if anything. -/
def Closing (γ : Stake) : Prop := γ.window ≠ .complete

theorem closing_query {q : Query} (h : ∀ γ, Closing γ → γ.allows (.db q) ∧
    ∀ a, Closing (γ.after (.db q) a)) : (query q).Maintains staking Closing := fun γ hγ =>
  ⟨(h γ hγ).1, fun a => (Prog.follows_ofExcept a).2 ((h γ hγ).2 a)⟩

theorem setFailed_closing (r : RunId) (reason : String) :
    (setFailed r reason).Maintains staking Closing := by
  refine Prog.maintains_bind now_calm fun t =>
    Prog.maintains_bind (closing_query fun γ hγ => ⟨hγ, fun a => ?_⟩) fun _ =>
      Prog.maintains_pure ()
  cases a with
  | ok => exact hγ
  | error => exact Window.noConfusion

theorem fail_closing (r : RunId) (reason : String) :
    (GrillPlatform.fail r reason).Maintains staking Closing :=
  Prog.maintains_bind (query_calm (.setDownByRun r) trivial) fun _ => setFailed_closing r reason

theorem requeue_stake {m : Int} {f : Option Nat → Async Unit} (hγ : γ.window = .provision)
    (hr : r ∈ γ.runs) (hf : ∀ attempt, (f attempt).Maintains staking Closing) :
    ((query (.requeueForRetry r m)).bind f).Follows staking (fun γ' _ => Closing γ') γ := by
  refine ⟨⟨hγ, hr⟩, fun e => ?_⟩
  cases e with
  | error x => exact Window.noConfusion
  | ok attempt =>
    cases attempt with
    | none => exact hf none _ Window.noConfusion
    | some k =>
      refine hf (some k) _ ?_
      show γ.window ≠ .complete
      rw [hγ]
      exact Window.noConfusion

/-- The states of an attempt that still has its run. -/
def Attempting (r : RunId) (γ : Stake) : Prop := γ = { window := .provision, runs := [r] }

theorem Attempting.closing (h : Attempting r γ) : Closing γ := by
  rw [h]
  exact Window.noConfusion

theorem markRunning_closing (i : NodeId) (ip : String) (h : Attempting r γ) :
    (markRunning r i ip).Follows staking (fun γ' _ => Closing γ') γ := by
  refine (query_calm (I := Attempting r) (.setBusy r i ip) trivial).bind h (fun _ γ' h' => ?_)
    fun _ _ h' => h'.closing
  refine (now_calm (I := Attempting r)).bind h' (fun t γ'' h'' => ?_) fun _ _ h' => h'.closing
  rw [h'']
  refine ⟨⟨rfl, List.mem_singleton_self r⟩, fun e => ?_⟩
  cases e <;> exact Window.noConfusion

theorem handleQueuedRun_stake (cfg : Config) (r : RunId) (g : GpuType) :
    (handleQueuedRun cfg r g).Follows staking (fun _ _ => True)
      { window := .provision, runs := [r] } := by
  have hrequeue : ∀ reason γ, Attempting r γ → (requeueOrGiveUp cfg r reason).Follows staking
      (fun γ' _ => Closing γ') γ := by
    intro reason γ h
    refine (Prog.maintains_tryCatch (calm_maintains (I := Attempting r) (destroyNode_calls r trivial
      trivial calm_of_destroyOp)) fun _ => Prog.maintains_pure ()).bind h (fun _ γ' h' => ?_)
      fun _ _ h' => h'.closing
    rw [h']
    refine requeue_stake rfl (List.mem_singleton_self r) fun attempt =>
      Prog.maintains_bind (query_calm (.setDownByRun r) trivial) fun _ => ?_
    cases attempt with
    | none => exact setFailed_closing r _
    | some _ => exact Prog.maintains_pure ()
  have hprovision : (provisionUnderPermit cfg r g).Follows staking (fun γ' _ => Closing γ')
      { window := .provision, runs := [r] } := by
    refine (query_calm (I := Attempting r) (.createProvisioning r g) trivial).bind rfl
      (fun _ γ h => ?_) fun _ _ h => h.closing
    have hget : (query (.runGet r)).Maintains staking (Attempting r) := by
      rintro γ rfl
      refine ⟨trivial, fun a => (Prog.follows_ofExcept a).2 ?_⟩
      match a with
      | .error _ | .ok none | .ok (some _) => rfl
    refine hget.bind h (fun found γ h => ?_) fun _ _ h => h.closing
    match found with
    | none => exact query_calm (I := Closing) (.setDownByRun r) trivial γ h.closing
    | some ⟨run, hrun⟩ =>
      subst hrun
      refine (Prog.maintains_attempt (calm_maintains (I := Attempting run.id)
        (provisionNode_calls cfg run trivial trivial calm_of_provisionOp))).bind h
        (fun out γ h => ?_) fun _ _ h => h.closing
      cases out with
      | error exc =>
        dsimp only
        unfold onProvisionError
        split
        · exact hrequeue _ γ h
        · split <;> exact fail_closing run.id _ γ h.closing
      | ok node => exact markRunning_closing node.1 node.2 h
  refine Prog.follows_tryCatch.2 (hprovision.mono fun γ e hγ => ?_)
  cases e with
  | ok _ => trivial
  | error x => exact (fail_closing r _ γ hγ).mono fun _ _ _ => trivial

theorem recover_stake (cfg : Config) (r : RunId) :
    (recoverOrphanedProvisioningRun cfg r).Follows staking (fun _ _ => True)
      { window := .provision, runs := [r] } := by
  refine (calm_maintains (I := Attempting r) ((releaseNode_calls r).mono calm_of_releaseOp)).bind
    rfl (fun _ γ h => ?_) fun _ _ _ => trivial
  rw [h]
  refine (requeue_stake rfl (List.mem_singleton_self r) fun attempt => ?_).mono
    fun _ _ _ => trivial
  cases attempt with
  | none => exact setFailed_closing r _
  | some _ => exact Prog.maintains_pure ()

end

def Restful (γ : Stake) : Prop := γ.window = .provision ∧ γ.runs = []

theorem spawn_stake {β : Type} {f : β → TaskName} (xs : List β) {γ : Stake}
    (hγ : γ.window = .provision) (hr : γ.runs = xs.flatMap fun x => (f x).stake.runs)
    (ha : ∀ x ∈ xs, (f x).stake.reaped ⊆ γ.reaped) :
    (Prog.forEach xs fun x => createTask (f x)).Follows staking (fun γ' _ => Restful γ') γ := by
  refine Prog.follows_forEach (fun xs γ => γ.window = .provision ∧
    γ.runs = (xs.flatMap fun x => (f x).stake.runs) ∧ ∀ x ∈ xs, (f x).stake.reaped ⊆ γ.reaped)
    (fun x xs γ h => ?_) (fun γ h => ⟨h.1, h.2.1⟩) ⟨hγ, hr, ha⟩
  obtain ⟨hγ, hr, ha⟩ := h
  rw [List.flatMap_cons] at hr
  refine ⟨⟨fun r h => hr ▸ List.mem_append_left _ h, .inr hγ, ha x List.mem_cons_self⟩,
    fun _ => ⟨hγ, ?_, fun y hy => ha y (List.mem_cons_of_mem x hy)⟩⟩
  show γ.runs.diff (f x).stake.runs = _
  rw [hr]
  cases f x with
  | request req => cases req <;> simp [TaskName.stake]
  | _ => simp [TaskName.stake]

theorem claimType_stake (live : GpuType → Nat) (g : GpuType) :
    (claimType live g).Maintains staking Restful := by
  refine Prog.maintains_bind (calm_maintains (calls_emit trivial)) fun quota => ?_
  cases quota with
  | none => exact Prog.maintains_pure ()
  | some quota =>
    rintro γ ⟨hγ, hr⟩
    refine ⟨hγ, fun e => ?_⟩
    cases e with
    | error x => exact ⟨hγ, hr⟩
    | ok claimed =>
      refine spawn_stake (f := fun c : RunId × GpuType => .handleQueuedRun c.1 c.2) claimed hγ ?_
        fun _ _ => List.nil_subset _
      show claimed.map Prod.fst ++ γ.runs = _
      rw [hr, List.append_nil, List.map_eq_flatMap]
      rfl

theorem reapStuckProvisioning_stake (cfg : Config) :
    (reapStuckProvisioning cfg).Maintains staking Restful := by
  refine Prog.maintains_bind now_calm fun now => ?_
  rintro γ ⟨hγ, hr⟩
  refine ⟨hr, fun e => ?_⟩
  cases e with
  | error x => exact ⟨hγ, hr⟩
  | ok stuck =>
    exact spawn_stake (f := fun r => .abortStuckProvisioning r) stuck hγ
      (hr.trans (List.flatMap_eq_nil_iff.2 fun _ _ => rfl).symm) fun _ _ => List.nil_subset _

theorem reapStuckRunning_stake (cfg : Config) :
    (reapStuckRunning cfg).Maintains staking Restful := by
  refine Prog.maintains_bind now_calm fun now => ?_
  rintro γ ⟨hγ, hr⟩
  refine ⟨hr, fun e => ?_⟩
  cases e with
  | error x => exact ⟨hγ, hr⟩
  | ok stuck =>
    refine spawn_stake (f := fun s : RunId × Option String => .abortStuckRunning s.1 s.2) stuck hγ
      (hr.trans (List.flatMap_eq_nil_iff.2 fun _ _ => rfl).symm) fun s hs r h => ?_
    rw [List.mem_singleton.1 h]
    exact List.mem_append_left _ (List.mem_map_of_mem hs)

theorem pollTick_stake (cfg : Config) :
    (pollTick cfg).Follows staking (fun _ _ => True) { window := .provision } := by
  have honce : (pollOnce cfg).Maintains staking Restful :=
    Prog.maintains_bind (query_calm .countLiveByType trivial) fun live =>
      Prog.maintains_bind (Prog.maintains_forEach fun g _ => claimType_stake live g) fun _ =>
        Prog.maintains_bind (reapStuckProvisioning_stake cfg) fun _ => reapStuckRunning_stake cfg
  refine (Prog.maintains_tryCatch honce fun _ => Prog.maintains_pure ()).bind ⟨rfl, rfl⟩
    (fun _ γ hγ => ⟨trivial, fun _ => ?_⟩) fun _ _ _ => trivial
  exact ⟨⟨List.nil_subset _, .inl rfl, List.nil_subset _⟩, fun _ => trivial⟩

theorem pollingLoop_stake :
    pollingLoop.Follows staking (fun _ _ => True) { window := .provision } := by
  have hquota : refreshGpuQuota.Maintains staking Restful := by
    refine Prog.maintains_bind (calm_maintains (calls_emit trivial)) fun e => ?_
    cases e with
    | error x => exact Prog.maintains_pure ()
    | ok live => exact calm_maintains (calls_emit trivial)
  have hleaked : recoverLeakedNodes.Maintains staking Restful := by
    refine Prog.maintains_bind (query_calm .getLeaked trivial) fun leaked =>
      Prog.maintains_forEach fun r _ => ?_
    rintro γ ⟨hγ, hr⟩
    exact ⟨⟨List.nil_subset _, .inl rfl, List.nil_subset _⟩, fun _ => ⟨hγ, hr⟩⟩
  have horphaned : recoverOrphanedProvisioning.Maintains staking Restful := by
    rintro γ ⟨hγ, hr⟩
    refine ⟨hγ, fun e => ?_⟩
    cases e with
    | error x => exact ⟨hγ, hr⟩
    | ok orphaned =>
      refine spawn_stake (f := .recoverOrphanedProvisioningRun) orphaned hγ ?_
        fun _ _ => List.nil_subset _
      show orphaned ++ γ.runs = _
      rw [hr, List.append_nil]
      exact (List.flatMap_singleton' orphaned).symm
  have hidle : Restful { window := .provision } := ⟨rfl, rfl⟩
  refine hquota.bind hidle (fun _ γ h => hleaked.bind h (fun _ γ h => horphaned.bind h
    (fun _ γ h => ?_) fun _ _ _ => trivial) fun _ _ _ => trivial) fun _ _ _ => trivial
  exact ⟨⟨List.nil_subset _, .inl rfl, List.nil_subset _⟩, fun _ => trivial⟩

/-! ## The requests -/

theorem release_stake {γ : Stake} (r : RunId) :
    (createTask (.releaseNode r)).Follows staking (fun _ _ => True) γ :=
  ⟨⟨List.nil_subset _, .inl rfl, List.nil_subset _⟩, fun _ => trivial⟩

theorem publish_stake (cfg : Config) (run : Run) (jsonl : String) {γ : Stake}
    (hγ : γ.window = .complete) (hr : run.id ∈ γ.runs) :
    (RunService.publish cfg run jsonl).Follows staking (fun _ _ => True) γ := by
  have hcalm : ∀ run, (uploadMeta run).Calls (S := sig) Stake.Calm := fun run =>
    Prog.calls_bind (endedAtOrNow_calls trivial run) fun _ => calls_s3 trivial
  have hupload : (uploadResults run jsonl).Calls (S := sig) Stake.Calm :=
    calls_s3_bind.2 ⟨trivial, fun _ => calls_s3_bind.2 ⟨trivial, fun _ => trivial⟩⟩
  refine (calm_maintains (I := fun γ' => γ' = γ) hupload).follows_bind fun url => ?_
  refine follows_answer (fun result hresult => follows_answer (fun perConcurrency _ => ?_)
    fun _ _ => trivial) fun _ _ => trivial
  refine follows_query_bind ⟨hγ, hr, runId_aggregate _ hresult⟩ (fun completed => ?_)
    fun _ => trivial
  refine (calm_maintains (I := fun _ => True) (Prog.calls_bind (hcalm completed.1) fun _ =>
    calls_s3_bind.2 ⟨trivial, fun current => ?_⟩)).follows trivial fun _ _ _ => trivial
  exact Prog.calls_bind (Prog.calls_ofExcept _) fun _ =>
    Prog.calls_bind (endedAtOrNow_calls trivial _) fun _ => calls_s3 trivial

theorem complete_stake (cfg : Config) (r : RunId) (jsonl : String) :
    (RunController.complete cfg r jsonl).Follows staking (fun _ _ => True)
      { window := .complete } := by
  have hservice : (RunService.complete cfg r jsonl).Follows staking (fun _ _ => True)
      { window := .complete } := by
    refine follows_query_bind trivial (fun found => ?_) fun _ => trivial
    match found with
    | none => trivial
    | some ⟨run, hrun⟩ =>
      subst hrun
      dsimp only
      split
      · trivial
      · rename_i hstatus
        have hopen : run.status ∈ Window.opens .complete :=
          List.mem_singleton.2 (not_not.1 hstatus)
        show (RunService.publish cfg run jsonl).Follows staking _ (if _ then _ else _)
        rw [if_pos hopen]
        exact publish_stake cfg run jsonl rfl (List.mem_singleton_self run.id)
  refine Prog.follows_bind.2 (hservice.mono fun γ e _ => ?_)
  cases e with
  | error x => trivial
  | ok _ => exact release_stake r

theorem fail_stake (r : RunId) (msg : String) :
    (RunController.fail r msg).Follows staking (fun _ _ => True) { window := .giveUp } := by
  have hservice : (RunService.fail r msg).Follows staking (fun _ _ => True)
      { window := .giveUp } := by
    refine follows_query_bind trivial (fun found => ?_) fun _ => trivial
    match found with
    | none => trivial
    | some ⟨run, hrun⟩ =>
      subst hrun
      dsimp only
      split
      · trivial
      · rename_i hstatus
        have hopen : run.status ∈ Window.opens .giveUp := by
          revert hstatus
          cases run.status <;> simp [Window.opens]
        show ((query (.failRun run.id msg)).bind _).Follows staking _ (if _ then _ else _)
        rw [if_pos hopen]
        exact follows_query_bind ⟨rfl, List.mem_singleton_self run.id⟩ (fun _ => trivial)
          fun _ => trivial
  refine Prog.follows_bind.2 (hservice.mono fun γ e _ => ?_)
  cases e with
  | error x => trivial
  | ok _ => exact release_stake r

def Stakeless : Op → Prop
  | .db (.runGet _) => True
  | op => Stake.Calm op

theorem request_stake (cfg : Config) (req : Request) :
    (req.body cfg).Follows staking (fun _ _ => True) (TaskName.request req).stake := by
  by_cases hc : ∃ r jsonl, req = .complete r jsonl
  · obtain ⟨r, jsonl, rfl⟩ := hc
    exact complete_stake cfg r jsonl
  by_cases hf : ∃ r msg, req = .fail r msg
  · obtain ⟨r, msg, rfl⟩ := hf
    exact fail_stake r msg
  have hreads : ∀ γ op, True → Stakeless op → staking.pre γ op ∧ ∀ _ : op.Resp, True := by
    intro γ op _ h
    unfold Stakeless at h
    split at h
    · exact ⟨trivial, fun _ => trivial⟩
    · exact ⟨(Stake.after_calm h).1, fun _ => trivial⟩
  refine (((request_calls cfg req).mono fun op h => ?_).maintains (I := fun _ => True)
    hreads).follows trivial fun _ _ _ => trivial
  cases req with
  | complete r jsonl => exact absurd ⟨r, jsonl, rfl⟩ hc
  | fail r msg => exact absurd ⟨r, msg, rfl⟩ hf
  | _ =>
    unfold RequestOp at h
    split at h <;> first | exact h.elim | trivial

def stakes (cfg : Config) : Watch (orchestrator cfg) Stake where
  protocol := staking
  start := TaskName.stake
  follows n := by
    cases n with
    | pollingLoop => exact pollingLoop_stake
    | pollTick => exact pollTick_stake cfg
    | handleQueuedRun r g => exact handleQueuedRun_stake cfg r g
    | recoverOrphanedProvisioningRun r => exact recover_stake cfg r
    | releaseNode r | abortStuckProvisioning r =>
      exact (calm_maintains (I := fun _ => True) ((releaseNode_calls r).mono
        calm_of_releaseOp)).follows trivial fun _ _ _ => trivial
    | abortStuckRunning r lastPhase =>
      refine (calm_maintains (I := Closing) ((releaseNode_calls r).mono calm_of_releaseOp)).bind
        Window.noConfusion (fun _ γ hγ => ?_) fun _ _ _ => trivial
      exact (setFailed_closing r _ γ hγ).mono fun _ _ _ => trivial
    | request req => exact request_stake cfg req

end GrillPlatform
