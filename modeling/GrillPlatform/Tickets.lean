import GrillPlatform.Footprint

/-! Tickets. A claim brings the poller a ticket for each run it claims, which goes to the
provisioning task; recovery takes the tickets of the runs it finds in provisioning, and a requeue
gives the ticket back. A task enters terraform only with a ticket, or to destroy for a scheduled
release, and an attempt puts the run on its node only with the run's ticket. -/

namespace GrillPlatform
open Coroutine

/-- The parts of the one task that boots, then recovers, then polls. -/
inductive Role where
  | boot | recover | poll
  deriving DecidableEq

/-- What a task holds: tickets, the part of the poller, the run it may destroy without a ticket,
and the terraform operation it is in. -/
structure Holding where
  tickets : List RunId := []
  role : Option Role := none
  release : Option RunId := none
  doing : Option (TfJob × RunId) := none

def TaskName.releases : TaskName → Option RunId
  | .releaseNode r | .abortStuckRunning r _ | .abortStuckProvisioning r => some r
  | _ => none

def TaskName.holding : TaskName → Holding
  | .pollingLoop => { role := some .boot }
  | .pollTick => { role := some .poll }
  | .handleQueuedRun r _ | .recoverOrphanedProvisioningRun r => { tickets := [r] }
  | n => { release := n.releases }

/-- The part a task plays when it creates another. -/
def TaskName.creator : TaskName → Option Role → Prop
  | .pollingLoop, _ => False
  | .pollTick, role => role = some .recover ∨ role = some .poll
  | .handleQueuedRun .., role => role = some .poll
  | .recoverOrphanedProvisioningRun _, role => role = some .recover
  | _, _ => True

def Holding.allows (γ : Holding) : Op → Prop
  | .enter job r => γ.doing = none ∧ (r ∈ γ.tickets ∨ job = .destroy ∧ γ.release = some r)
  | .leave job r => γ.doing = some (job, r)
  | .db (.claimQueued ..) | .db .countLiveByType => γ.role = some .poll ∧ γ.tickets = []
  | .db .getOrphanedProvisioning => γ.role = some .boot
  | .db (.requeueForRetry r _) => r ∈ γ.tickets ∧ γ.doing = none
  | .db (.createProvisioning r _) | .db (.setBusy r ..) | .db (.setRunning r _) => r ∈ γ.tickets
  | .createTask n => γ.doing = none ∧ n.creator γ.role ∧ ∀ r ∈ n.holding.tickets, r ∈ γ.tickets
  | _ => True

/-- The tickets a call brings its task, and those it takes away. -/
def issued : (op : Op) → op.Resp → List RunId
  | .db (.claimQueued ..), .ok claimed => claimed.map Prod.fst
  | .db .getOrphanedProvisioning, .ok orphaned => orphaned
  | _, _ => []

def given : Op → List RunId
  | .db (.requeueForRetry r _) => [r]
  | .createTask n => n.holding.tickets
  | _ => []

def roleAfter (role : Option Role) : (op : Op) → op.Resp → Option Role
  | .db .getOrphanedProvisioning, .ok _ => some .recover
  | .createTask n, _ => if n.holding.role = some .poll then none else role
  | _, _ => role

def doingAfter (doing : Option (TfJob × RunId)) : Op → Option (TfJob × RunId)
  | .enter job r => some (job, r)
  | .leave .. => none
  | _ => doing

def Holding.after (γ : Holding) (op : Op) (a : op.Resp) : Holding where
  tickets := issued op a ++ γ.tickets.diff (given op)
  role := roleAfter γ.role op a
  release := γ.release
  doing := doingAfter γ.doing op

def exclusion : Protocol sig Holding := ⟨Holding.allows, Holding.after⟩

def Plain : Op → Prop
  | .enter .. | .leave .. | .createTask _ | .db (.claimQueued ..) | .db .countLiveByType
  | .db .getOrphanedProvisioning
  | .db (.requeueForRetry ..) | .db (.createProvisioning ..) | .db (.setBusy ..)
  | .db (.setRunning ..) => False
  | _ => True

theorem allows_plain {γ : Holding} {op : Op} (h : Plain op) :
    γ.allows op ∧ ∀ r, γ.after op r = γ := by
  cases op with
  | db q => cases q <;> first | exact h.elim | exact ⟨trivial, fun _ => rfl⟩
  | enter | leave | createTask => exact h.elim
  | _ => exact ⟨trivial, fun _ => rfl⟩

theorem maintains_plain {α : Type} {I : Holding → Prop} {p : Async α}
    (hp : p.Calls (S := sig) Plain) : p.Maintains exclusion I :=
  hp.maintains fun _ _ h hop => ⟨(allows_plain hop).1, fun r => by
    rw [show exclusion.post _ _ r = _ from (allows_plain hop).2 r]; exact h⟩

theorem plain_of_provisionOp {r : RunId} (op : Op) (h : ProvisionOp r op) : Plain op := by
  unfold ProvisionOp at h
  split at h <;> first | exact h.elim | trivial

theorem plain_of_destroyOp {r : RunId} (op : Op) (h : DestroyOp r op) : Plain op := by
  unfold DestroyOp at h
  split at h <;> first | exact h.elim | trivial

theorem during_maintains {α : Type} (γ₀ : Holding) {job : TfJob} {r : RunId} {body : Async α}
    (hd : γ₀.doing = none) (hr : r ∈ γ₀.tickets ∨ job = .destroy ∧ γ₀.release = some r)
    (hb : body.Calls (S := sig) Plain) :
    (during job r body).Maintains exclusion fun γ => γ = γ₀ := by
  rintro γ rfl
  refine ⟨⟨hd, hr⟩, fun _ => Prog.follows_attempt_bind.2 ((maintains_plain hb).follows
    (I := fun γ' => γ' = { γ with doing := some (job, r) }) rfl ?_)⟩
  rintro _ out rfl
  refine ⟨rfl, fun _ => (Prog.follows_ofExcept out).2 ?_⟩
  cases γ
  cases hd
  rfl

theorem destroyNode_maintains {γ₀ : Holding} {r : RunId} (hd : γ₀.doing = none)
    (hr : r ∈ γ₀.tickets ∨ γ₀.release = some r) :
    (destroyNode r).Maintains exclusion fun γ => γ = γ₀ :=
  during_maintains γ₀ hd (hr.imp_right fun h => ⟨rfl, h⟩)
    ((destroySteps_calls r).mono plain_of_destroyOp)

theorem releaseNode_maintains {γ₀ : Holding} {r : RunId} (hd : γ₀.doing = none)
    (hr : r ∈ γ₀.tickets ∨ γ₀.release = some r) :
    (releaseNode r).Maintains exclusion fun γ => γ = γ₀ := by
  have ha : (releaseAttempt r).Maintains exclusion fun γ => γ = γ₀ :=
    Prog.maintains_tryCatch (Prog.maintains_bind (destroyNode_maintains hd hr) fun _ =>
      maintains_plain (calls_query_bind.2 ⟨trivial, fun _ => trivial⟩)) fun _ =>
        Prog.maintains_pure false
  have h : ∀ attempts, (releaseFrom r attempts).Maintains exclusion fun γ => γ = γ₀ := by
    intro attempts
    induction attempts with
    | nil => exact Prog.maintains_pure ()
    | cons attempt rest ih =>
      refine Prog.maintains_bind ha fun done => ?_
      cases done with
      | true => exact Prog.maintains_pure ()
      | false =>
        simp only [Bool.false_eq_true, if_false]
        split
        · exact Prog.maintains_bind (maintains_plain (calls_emit trivial)) fun _ => ih
        · exact ih
  exact h _

theorem query_maintains {I : Holding → Prop} (q : Query) (h : Plain (.db q)) :
    (query q).Maintains exclusion I := maintains_plain (calls_query h)

theorem setFailed_maintains {I : Holding → Prop} (r : RunId) (reason : String) :
    (setFailed r reason).Maintains exclusion I :=
  maintains_plain (setFailed_calls trivial fun _ _ => trivial)

theorem fail_maintains {I : Holding → Prop} (r : RunId) (reason : String) :
    (fail r reason).Maintains exclusion I :=
  Prog.maintains_bind (maintains_plain (calls_query trivial)) fun _ => setFailed_maintains r reason

theorem attempt_maintains {γ₀ : Holding} (q : Query) (h : γ₀.allows (.db q))
    (ha : ∀ a, γ₀.after (.db q) a = γ₀) :
    (query q).Maintains exclusion fun γ => γ = γ₀ := by
  rintro γ rfl
  exact ⟨h, fun e => (Prog.follows_ofExcept e).2 (ha e)⟩

theorem markRunning_maintains {γ₀ : Holding} {r : RunId} (hr : r ∈ γ₀.tickets) (i : NodeId)
    (ip : String) : (markRunning r i ip).Maintains exclusion fun γ => γ = γ₀ :=
  Prog.maintains_bind (attempt_maintains (.setBusy r i ip) hr fun _ => rfl) fun _ =>
    Prog.maintains_bind (maintains_plain (calls_emit trivial)) fun now =>
      Prog.maintains_bind (attempt_maintains (.setRunning r now) hr fun _ => rfl) fun _ =>
        Prog.maintains_pure ()

theorem requeue_follows {γ : Holding} {r : RunId} {m : Int} {f : Option Nat → Async Unit}
    (hd : γ.doing = none) (hr : r ∈ γ.tickets)
    (hf : ∀ attempt, (f attempt).Maintains exclusion fun _ => True) :
    ((query (.requeueForRetry r m)).bind f).Follows exclusion (fun _ _ => True) γ :=
  ⟨⟨hr, hd⟩, fun e => by
    cases e with
    | error x => trivial
    | ok attempt => exact hf attempt _ trivial⟩

theorem handleQueuedRun_follows (cfg : Config) (r : RunId) (g : GpuType) :
    (handleQueuedRun cfg r g).Follows exclusion (fun _ _ => True) { tickets := [r] } := by
  have hr : r ∈ [r] := List.mem_singleton_self r
  have hrequeue : ∀ reason, (requeueOrGiveUp cfg r reason).Follows exclusion (fun _ _ => True)
      { tickets := [r] } := fun reason =>
    (Prog.maintains_tryCatch (destroyNode_maintains rfl (.inl hr)) fun _ =>
      Prog.maintains_pure ()).follows_bind fun _ => requeue_follows rfl hr fun attempt =>
        Prog.maintains_bind (query_maintains (.setDownByRun r) trivial) fun _ => by
          cases attempt with
          | none => exact setFailed_maintains r _
          | some _ => exact Prog.maintains_pure ()
  have hcreate : (query (.createProvisioning r g)).Maintains exclusion
      fun γ => γ = { tickets := [r] } := attempt_maintains _ hr fun _ => rfl
  refine Prog.follows_tryCatch_any (hcreate.follows_bind fun _ =>
    (query_maintains (.runGet r) trivial).follows_bind fun found => ?_) fun _ => fail_maintains r _
  match found with
  | none => exact query_maintains (I := fun _ => True) (.setDownByRun r) trivial _ trivial
  | some ⟨run, hrun⟩ =>
    subst hrun
    refine (Prog.maintains_attempt (during_maintains { tickets := [run.id] } rfl (.inl hr)
      ((provisionSteps_calls cfg run).mono plain_of_provisionOp))).follows_bind fun out => ?_
    cases out with
    | error exc =>
      dsimp only
      unfold onProvisionError
      split
      · exact hrequeue _
      · split <;> exact fail_maintains (I := fun _ => True) run.id _ _ trivial
    | ok node => exact (markRunning_maintains hr node.1 node.2).follows rfl fun _ _ _ => trivial

theorem recover_follows (cfg : Config) (r : RunId) :
    (recoverOrphanedProvisioningRun cfg r).Follows exclusion (fun _ _ => True)
      { tickets := [r] } :=
  (releaseNode_maintains rfl (.inl (List.mem_singleton_self r))).follows_bind fun _ =>
    requeue_follows rfl (List.mem_singleton_self r) fun attempt => by
      cases attempt with
      | none => exact setFailed_maintains r _
      | some _ => exact Prog.maintains_pure ()

/-! ## The poller -/

theorem allows_createTask {γ : Holding} {n : TaskName} (hd : γ.doing = none)
    (hc : n.creator γ.role) (ht : n.holding.tickets = []) : γ.allows (.createTask n) :=
  ⟨hd, hc, fun _ h => (List.not_mem_nil (ht ▸ h)).elim⟩

def Playing (ρ : Role) (γ : Holding) : Prop := γ.role = some ρ ∧ γ.doing = none

/-- Between its claims the poller holds no ticket. -/
def Polling (γ : Holding) : Prop := Playing .poll γ ∧ γ.tickets = []

theorem createTask_follows {ρ : Role} {γ : Holding} {n : TaskName} (hγ : Playing ρ γ)
    (hc : n.creator (some ρ)) (hn : n.holding.role = none) {rest : List RunId}
    (ht : γ.tickets = n.holding.tickets ++ rest) :
    (createTask n).Follows exclusion (fun γ' _ => Playing ρ γ' ∧ γ'.tickets = rest) γ := by
  refine ⟨⟨hγ.2, hγ.1 ▸ hc, fun r h => ht ▸ List.mem_append_left _ h⟩, fun _ => ?_⟩
  have hrest : γ.tickets.diff n.holding.tickets = rest := by
    rw [ht]; cases n <;> simp [TaskName.holding]
  exact ⟨⟨by simp [exclusion, Holding.after, roleAfter, hn, hγ.1], hγ.2⟩, hrest⟩

theorem spawn_follows {β : Type} {ρ : Role} {f : β → TaskName} (hc : ∀ x, (f x).creator (some ρ))
    (hn : ∀ x, (f x).holding.role = none) {xs : List β} {γ : Holding} (rest : List RunId)
    (hγ : Playing ρ γ) (ht : γ.tickets = (xs.flatMap fun x => (f x).holding.tickets) ++ rest) :
    (Prog.forEach xs fun x => createTask (f x)).Follows exclusion
      (fun γ' _ => Playing ρ γ' ∧ γ'.tickets = rest) γ := by
  induction xs generalizing γ with
  | nil => exact ⟨hγ, ht⟩
  | cons x xs ih =>
    rw [List.flatMap_cons, List.append_assoc] at ht
    have h := createTask_follows hγ (hc x) (hn x) ht
    exact ⟨h.1, fun u => ih (h.2 u).1 (h.2 u).2⟩

theorem claimType_maintains (live : GpuType → Nat) (g : GpuType) :
    (claimType live g).Maintains exclusion Polling := by
  refine Prog.maintains_bind (maintains_plain (calls_emit trivial)) fun quota => ?_
  cases quota with
  | none => exact Prog.maintains_pure ()
  | some quota =>
    rintro γ ⟨hγ, ht⟩
    refine ⟨⟨hγ.1, ht⟩, fun e => ?_⟩
    cases e with
    | error x => exact ⟨hγ, by simpa [exclusion, Holding.after, issued, given] using ht⟩
    | ok claimed =>
      exact spawn_follows (f := fun c : RunId × GpuType => .handleQueuedRun c.1 c.2)
        (fun _ => rfl) (fun _ => rfl) [] hγ
        (by simp [exclusion, Holding.after, issued, given, TaskName.holding,
          List.map_eq_flatMap, ht])

theorem spawn_maintains {β : Type} (f : β → TaskName) (hc : ∀ x, (f x).creator (some .poll))
    (hn : ∀ x, (f x).holding.role = none) (ht : ∀ x, (f x).holding.tickets = []) (xs : List β) :
    (Prog.forEach xs fun x => createTask (f x)).Maintains exclusion Polling := fun γ hγ =>
  spawn_follows hc hn [] hγ.1 (by simp [ht, hγ.2])

theorem pollOnce_maintains (cfg : Config) : (pollOnce cfg).Maintains exclusion Polling := by
  have hcount : (query .countLiveByType).Maintains exclusion Polling := fun γ hγ =>
    ⟨⟨hγ.1.1, hγ.2⟩, fun e => (Prog.follows_ofExcept e).2 hγ⟩
  refine Prog.maintains_bind hcount fun live =>
    Prog.maintains_bind (Prog.maintains_forEach fun g _ => claimType_maintains live g) fun _ =>
      Prog.maintains_bind ?_ fun _ => ?_
  · exact Prog.maintains_bind (maintains_plain (calls_emit trivial)) fun now =>
      Prog.maintains_bind (query_maintains (.claimProvisioningTimedOut _) trivial) fun stuck =>
        spawn_maintains (fun r => .abortStuckProvisioning r) (fun _ => trivial) (fun _ => rfl)
          (fun _ => rfl) stuck
  · exact Prog.maintains_bind (maintains_plain (calls_emit trivial)) fun now =>
      Prog.maintains_bind (query_maintains (.claimRunningTimedOut _) trivial) fun stuck =>
        spawn_maintains (fun s => .abortStuckRunning s.1 s.2) (fun _ => trivial) (fun _ => rfl)
          (fun _ => rfl) stuck

theorem pollTick_follows (cfg : Config) :
    (pollTick cfg).Follows exclusion (fun _ _ => True) { role := some .poll } :=
  (Prog.maintains_tryCatch (pollOnce_maintains cfg) fun _ => Prog.maintains_pure ()).bind
    (I := Polling) ⟨⟨rfl, rfl⟩, rfl⟩ (fun _ _ hγ => ⟨trivial, fun _ =>
      ⟨allows_createTask hγ.1.2 (.inr hγ.1.1) rfl, fun _ => trivial⟩⟩) fun _ _ _ => trivial

theorem pollingLoop_follows :
    pollingLoop.Follows exclusion (fun _ _ => True) { role := some .boot } := by
  have hquota : refreshGpuQuota.Maintains exclusion fun γ => γ = { role := some .boot } := by
    refine Prog.maintains_bind (maintains_plain (calls_emit trivial)) fun e => ?_
    cases e with
    | error x => exact Prog.maintains_pure ()
    | ok live => exact maintains_plain (calls_emit trivial)
  have hleaked : recoverLeakedNodes.Maintains exclusion fun γ => γ = { role := some .boot } := by
    refine Prog.maintains_bind (query_maintains .getLeaked trivial) fun leaked =>
      Prog.maintains_forEach fun r _ => ?_
    rintro γ rfl
    exact ⟨allows_createTask rfl trivial rfl, fun _ => rfl⟩
  refine hquota.follows_bind fun _ => hleaked.follows_bind fun _ => ?_
  refine Prog.follows_bind.2 ⟨rfl, fun e => ?_⟩
  cases e with
  | error x => trivial
  | ok orphaned =>
    refine (spawn_follows (ρ := .recover) (f := .recoverOrphanedProvisioningRun) (fun _ => rfl)
      (fun _ => rfl) [] ⟨rfl, rfl⟩ ?_).mono fun γ e hγ => ?_
    · simp [exclusion, Holding.after, issued, given, TaskName.holding]
    · cases e with
      | error x => trivial
      | ok _ => exact ⟨allows_createTask hγ.1.2 (.inl hγ.1.1) rfl, fun _ => trivial⟩

theorem requestOp_cases {req : Request} {op : Op} (h : RequestOp req op) :
    Plain op ∨ ∃ r, op = .createTask (.releaseNode r) := by
  unfold RequestOp at h
  split at h <;> first | exact .inl trivial | exact h.elim | exact .inr ⟨_, congrArg _ h⟩

theorem request_follows (cfg : Config) (req : Request) :
    (req.body cfg).Follows exclusion (fun _ _ => True) {} := by
  refine ((request_calls cfg req).maintains (I := fun γ => γ = {}) ?_).follows rfl
    fun _ _ _ => trivial
  rintro γ op rfl h
  rcases requestOp_cases h with h | ⟨r, rfl⟩
  · exact allows_plain h
  · exact ⟨allows_createTask rfl trivial rfl, fun _ => rfl⟩

theorem body_follows (cfg : Config) (n : TaskName) :
    (n.body cfg).Follows exclusion (fun _ _ => True) n.holding := by
  cases n with
  | pollingLoop => exact pollingLoop_follows
  | pollTick => exact pollTick_follows cfg
  | handleQueuedRun r g => exact handleQueuedRun_follows cfg r g
  | releaseNode r | abortStuckProvisioning r =>
    exact (releaseNode_maintains rfl (.inr rfl)).follows rfl fun _ _ _ => trivial
  | recoverOrphanedProvisioningRun r => exact recover_follows cfg r
  | abortStuckRunning r lastPhase =>
    exact (releaseNode_maintains rfl (.inr rfl)).follows_bind fun _ =>
      setFailed_maintains (I := fun _ => True) r _ _ trivial
  | request req => exact request_follows cfg req

end GrillPlatform
