import GrillPlatform.System

/-! The calls each task can make, whatever it is answered. -/

namespace GrillPlatform
open Coroutine

def ReleaseOp (r : RunId) : Op → Prop
  | .enter .destroy r' | .leave .destroy r' | .db (.setDownByRun r') => r' = r
  | .sleep _ => True
  | op => DestroyOp r op

/-- An attempt, once it has created its row. -/
def AttemptOp (cfg : Config) (r : RunId) : Op → Prop
  | .enter _ r' | .leave _ r' | .workspaceExists r' => r' = r
  | .tf q => ∀ r', q.runId = some r' → r' = r
  | .db (.requeueForRetry r' m) => r' = r ∧ m = cfg.provisionMaxAttempts
  | .db (.runGet r') | .db (.setBusy r' _ _) | .db (.setRunning r' _) | .db (.setDownByRun r')
  | .db (.setFailed r' _ _) => r' = r
  | .now => True
  | _ => False

def HandleOp (cfg : Config) (r : RunId) (g : GpuType) : Op → Prop
  | .db (.createProvisioning r' g') => r' = r ∧ g' = g
  | op => AttemptOp cfg r op

def RecoverOp (cfg : Config) (r : RunId) : Op → Prop
  | .db (.requeueForRetry r' m) => r' = r ∧ m = cfg.provisionMaxAttempts
  | .db (.setFailed r' _ _) => r' = r
  | .now => True
  | op => ReleaseOp r op

def AbortOp (r : RunId) : Op → Prop
  | .db (.setFailed r' _ _) => r' = r
  | .now => True
  | op => ReleaseOp r op

def BootOp : Op → Prop
  | .fetchGpuQuota | .updateQuota _ | .db .getLeaked | .db .getOrphanedProvisioning
  | .createTask (.releaseNode _) | .createTask (.recoverOrphanedProvisioningRun _)
  | .createTask .pollTick => True
  | _ => False

def TickOp : Op → Prop
  | .db .countLiveByType | .db (.claimQueued ..) | .db (.claimRunningTimedOut _)
  | .db (.claimProvisioningTimedOut _) | .getQuota _ | .now | .sleep _
  | .createTask (.handleQueuedRun ..) | .createTask (.abortStuckRunning ..)
  | .createTask (.abortStuckProvisioning _) | .createTask .pollTick => True
  | _ => False

/-- The requests. A created run is queued with no attempt spent, a registered node belongs to no
run, and a saved node is down. -/
def RequestOp : Request → Op → Prop
  | .createRun _, .uuid4 | .createRun _, .now => True
  | .createRun _, .db (.runCreate run) => run.status = .queued ∧ run.provisionAttempts = 0
  | .complete r _, .db (.runGet r') | .fail r _, .db (.runGet r') | .setPhase r _, .db (.runGet r')
  | .attachLogs r _, .db (.runGet r') => r' = r
  | .complete r _, .db (.completeRun r' _ result) => r' = r ∧ result.runId = r
  | .complete r _, .s3 (.copyObject _ source) => ∃ slug engine, source = .runResults slug engine r
  | .complete _ _, .s3 (.putObject ..) | .complete _ _, .s3 (.getObject .leaderboard)
  | .complete _ _, .now | .attachLogs _ _, .s3 (.putObject _ (.log _)) => True
  | .fail r _, .db (.failRun r' _) | .setPhase r _, .db (.setPhase r' _)
  | .attachLogs r _, .db (.setLogsUrl r' _) => r' = r
  | .complete r _, .createTask n | .fail r _, .createTask n => n = .releaseNode r
  | .registerNode _ _, .db (.nodeGet _) | .deregisterNode _, .db (.nodeGet _) => True
  | .registerNode _ _, .db (.nodeCreate node) => node.currentRunId = none
  | .deregisterNode _, .db (.nodeSave node) => node.status = .down
  | .submit .., .db (.hasActiveRun ..) | .submit .., .modelInfo _ | .submit .., .uuid4
  | .submit .., .now | .submit .., .s3 (.headObject _)
  | .submit .., .s3 (.putObject .models (.models _))
  | .submit .., .s3 (.putObject .scenarios (.scenarios _))
  | .submit .., .s3 (.putObject .engines (.engines _)) => True
  | .submit .., .db (.runCreate run) => run.status = .queued ∧ run.provisionAttempts = 0
  | _, _ => False

def TaskName.may (cfg : Config) : TaskName → Op → Prop
  | .pollingLoop => BootOp
  | .pollTick => TickOp
  | .handleQueuedRun r g => HandleOp cfg r g
  | .releaseNode r | .abortStuckProvisioning r => ReleaseOp r
  | .recoverOrphanedProvisioningRun r => RecoverOp cfg r
  | .abortStuckRunning r _ => AbortOp r
  | .request req => RequestOp req

section
variable {A : Op → Prop} {α : Type}

theorem calls_answer_bind {β : Type} {f : β → Async α} :
    (∀ e : Except Exc β, ((Prog.ofExcept e).bind f).Calls A) ↔ ∀ b, (f b).Calls A :=
  ⟨fun h b => h (.ok b), fun h _ => Prog.calls_ofExcept_bind fun b _ => h b⟩

theorem calls_query_bind {q : Query} {f : q.Resp → Async α} :
    ((query q).bind f).Calls A ↔ A (.db q) ∧ ∀ a, (f a).Calls A :=
  and_congr Iff.rfl calls_answer_bind

theorem calls_s3_bind {q : S3Call} {f : q.Resp → Async α} :
    ((s3 q).bind f).Calls A ↔ A (.s3 q) ∧ ∀ a, (f a).Calls A :=
  and_congr Iff.rfl calls_answer_bind

end

section
variable {Γ α : Type} {P : Protocol sig Γ} {Q : Γ → Except Exc α → Prop} {γ : Γ}

theorem follows_answer {β : Type} {f : β → Async α} {e : Except Exc β}
    (hf : ∀ b, e = .ok b → (f b).Follows P Q γ) (hx : ∀ x, e = .error x → Q γ (.error x)) :
    ((Prog.ofExcept e).bind f).Follows P Q γ := by
  cases e with
  | error x => exact hx x rfl
  | ok b => exact hf b rfl

theorem follows_query_bind {q : Query} {f : q.Resp → Async α} (h : P.pre γ (.db q))
    (hf : ∀ a, (f a).Follows P Q (P.post γ (.db q) (.ok a)))
    (hx : ∀ x, Q (P.post γ (.db q) (.error x)) (.error x)) :
    ((query q).bind f).Follows P Q γ :=
  ⟨h, fun _ => follows_answer (fun a h => h ▸ hf a) fun x h => h ▸ hx x⟩

theorem follows_s3_bind {q : S3Call} {f : q.Resp → Async α} (h : P.pre γ (.s3 q))
    (hf : ∀ a, (f a).Follows P Q (P.post γ (.s3 q) (.ok a)))
    (hx : ∀ x, Q (P.post γ (.s3 q) (.error x)) (.error x)) : ((s3 q).bind f).Follows P Q γ :=
  ⟨h, fun _ => follows_answer (fun a h => h ▸ hf a) fun x h => h ▸ hx x⟩

end

theorem provisionNode_calls {A : Op → Prop} (cfg : Config) (run : Run)
    (he : A (.enter .provision run.id)) (hl : A (.leave .provision run.id))
    (h : ∀ op, ProvisionOp run.id op → A op) : (provisionNode cfg run).Calls (S := sig) A :=
  calls_during he hl ((provisionSteps_calls cfg run).mono h)

theorem destroyNode_calls {A : Op → Prop} (r : RunId) (he : A (.enter .destroy r))
    (hl : A (.leave .destroy r)) (h : ∀ op, DestroyOp r op → A op) :
    (destroyNode r).Calls (S := sig) A := calls_during he hl ((destroySteps_calls r).mono h)

theorem releaseOp_of_destroyOp {r : RunId} (op : Op) (h : DestroyOp r op) : ReleaseOp r op := by
  unfold ReleaseOp
  split
  · exact h.elim
  · exact h.elim
  · exact h.elim
  · exact h.elim
  · exact h

theorem releaseAttempt_calls (r : RunId) : (releaseAttempt r).Calls (S := sig) (ReleaseOp r) := by
  refine Prog.calls_tryCatch (Prog.calls_bind (destroyNode_calls r rfl rfl releaseOp_of_destroyOp)
    fun _ => ?_) fun _ => trivial
  exact calls_query_bind.2 ⟨rfl, fun _ => trivial⟩

theorem releaseNode_calls (r : RunId) : (releaseNode r).Calls (S := sig) (ReleaseOp r) := by
  have h : ∀ attempts, (releaseFrom r attempts).Calls (S := sig) (ReleaseOp r) := by
    intro attempts
    induction attempts with
    | nil => trivial
    | cons attempt rest ih =>
      refine Prog.calls_bind (releaseAttempt_calls r) fun done => ?_
      cases done with
      | true => trivial
      | false =>
        simp only [Bool.false_eq_true, if_false]
        split
        · exact ⟨trivial, fun _ => ih⟩
        · exact ih
  exact h _

theorem pollingLoop_calls : pollingLoop.Calls (S := sig) BootOp := by
  have hf : refreshGpuQuota.Calls (S := sig) BootOp :=
    ⟨trivial, fun e => by
      cases e with
      | error => trivial
      | ok live => exact calls_emit trivial⟩
  refine Prog.calls_bind hf fun _ => Prog.calls_bind ?_ fun _ => Prog.calls_bind ?_ fun _ => ?_
  · exact calls_query_bind.2 ⟨trivial, fun _ => Prog.calls_forEach fun _ _ => calls_emit trivial⟩
  · exact calls_query_bind.2 ⟨trivial, fun _ => Prog.calls_forEach fun _ _ => calls_emit trivial⟩
  · exact calls_emit trivial

theorem claimType_calls (live : GpuType → Nat) (g : GpuType) :
    (claimType live g).Calls (S := sig) TickOp := by
  refine ⟨trivial, fun quota => ?_⟩
  cases quota with
  | none => trivial
  | some quota =>
    exact calls_query_bind.2 ⟨trivial, fun _ => Prog.calls_forEach fun _ _ => calls_emit trivial⟩

theorem pollOnce_calls (cfg : Config) : (pollOnce cfg).Calls (S := sig) TickOp := by
  refine calls_query_bind.2 ⟨trivial, fun live => Prog.calls_bind
    (Prog.calls_forEach fun g _ => claimType_calls live g) fun _ => Prog.calls_bind ?_ fun _ => ?_⟩
  · exact ⟨trivial, fun _ => calls_query_bind.2
      ⟨trivial, fun _ => Prog.calls_forEach fun _ _ => calls_emit trivial⟩⟩
  · exact ⟨trivial, fun _ => calls_query_bind.2
      ⟨trivial, fun _ => Prog.calls_forEach fun _ _ => calls_emit trivial⟩⟩

theorem pollTick_calls (cfg : Config) : (pollTick cfg).Calls (S := sig) TickOp :=
  Prog.calls_bind (Prog.calls_tryCatch (pollOnce_calls cfg) fun _ => trivial) fun _ =>
    ⟨trivial, fun _ => calls_emit trivial⟩

theorem setFailed_calls {A : Op → Prop} {r : RunId} {reason : String} (hn : A .now)
    (hs : ∀ t msg, A (.db (.setFailed r t msg))) : (setFailed r reason).Calls (S := sig) A :=
  ⟨hn, fun t => calls_query_bind.2 ⟨hs t _, fun _ => trivial⟩⟩

theorem recoverOp_of_releaseOp (cfg : Config) {r : RunId} (op : Op) (h : ReleaseOp r op) :
    RecoverOp cfg r op := by
  unfold RecoverOp
  split
  · exact h.elim
  · exact h.elim
  · trivial
  · exact h

theorem abortOp_of_releaseOp {r : RunId} (op : Op) (h : ReleaseOp r op) : AbortOp r op := by
  unfold AbortOp
  split
  · exact h.elim
  · trivial
  · exact h

theorem recover_calls (cfg : Config) (r : RunId) :
    (recoverOrphanedProvisioningRun cfg r).Calls (S := sig) (RecoverOp cfg r) := by
  refine Prog.calls_bind ((releaseNode_calls r).mono (recoverOp_of_releaseOp cfg)) fun _ =>
    calls_query_bind.2 ⟨⟨rfl, rfl⟩, fun attempt => ?_⟩
  cases attempt with
  | none => exact setFailed_calls trivial fun _ _ => rfl
  | some _ => trivial

theorem abortStuckRunning_calls (cfg : Config) (r : RunId) (lastPhase : Option String) :
    (abortStuckRunning cfg r lastPhase).Calls (S := sig) (AbortOp r) :=
  Prog.calls_bind ((releaseNode_calls r).mono abortOp_of_releaseOp) fun _ =>
    setFailed_calls trivial fun _ _ => rfl

theorem handleQueuedRun_eq (cfg : Config) (r : RunId) (g : GpuType) : ∃ next,
    handleQueuedRun cfg r g = .call (S := sig) (.db (.createProvisioning r g)) next ∧
    ∀ a, (next a).Calls (AttemptOp cfg r) := by
  have hfail : ∀ reason, (fail r reason).Calls (S := sig) (AttemptOp cfg r) := fun reason =>
    calls_query_bind.2 ⟨rfl, fun _ => setFailed_calls trivial fun _ _ => rfl⟩
  have hprov : ∀ op, ProvisionOp r op → AttemptOp cfg r op := by
    intro op h
    unfold ProvisionOp at h
    split at h <;> first | exact h.elim | exact h
  have hdes : ∀ op, DestroyOp r op → AttemptOp cfg r op := by
    intro op h
    unfold DestroyOp at h
    split at h <;> first | exact h.elim | exact h
  have hreq : ∀ reason, (requeueOrGiveUp cfg r reason).Calls (S := sig) (AttemptOp cfg r) := by
    refine fun reason => Prog.calls_bind (Prog.calls_tryCatch (destroyNode_calls r rfl rfl hdes)
      fun _ => trivial) fun _ => calls_query_bind.2 ⟨⟨rfl, rfl⟩, fun attempt =>
        calls_query_bind.2 ⟨rfl, fun _ => ?_⟩⟩
    cases attempt with
    | none => exact setFailed_calls trivial fun _ _ => rfl
    | some _ => trivial
  have herr : ∀ exc, (onProvisionError cfg r exc).Calls (S := sig) (AttemptOp cfg r) := by
    intro exc
    unfold onProvisionError
    split
    · exact hreq _
    · split <;> exact hfail _
  refine ⟨_, rfl, fun a => Prog.calls_tryCatch (Prog.calls_ofExcept_bind fun _ _ =>
    calls_query_bind.2 ⟨rfl, fun run => ?_⟩) fun _ => hfail _⟩
  cases run with
  | none => exact calls_query rfl
  | some run =>
    refine Prog.calls_bind (Prog.calls_attempt (provisionNode_calls cfg run.1 run.2 run.2
      fun op h => hprov op (run.2 ▸ h))) fun out => ?_
    cases out with
    | error exc => exact herr exc
    | ok node =>
      exact calls_query_bind.2 ⟨rfl, fun _ => ⟨trivial, fun _ =>
        calls_query_bind.2 ⟨rfl, fun _ => trivial⟩⟩⟩

theorem handleOp_of_attemptOp {cfg : Config} {r : RunId} (g : GpuType) (op : Op)
    (h : AttemptOp cfg r op) : HandleOp cfg r g op := by
  unfold HandleOp
  split
  · exact h.elim
  · exact h

theorem handleQueuedRun_calls (cfg : Config) (r : RunId) (g : GpuType) :
    (handleQueuedRun cfg r g).Calls (S := sig) (HandleOp cfg r g) := by
  obtain ⟨next, hbody, hcalls⟩ := handleQueuedRun_eq cfg r g
  rw [hbody]
  exact ⟨⟨rfl, rfl⟩, fun a => (hcalls a).mono (handleOp_of_attemptOp g)⟩

/-! ## The requests -/

theorem endedAtOrNow_calls {A : Op → Prop} (hn : A .now) (run : Run) :
    (endedAtOrNow run).Calls (S := sig) A := by
  unfold endedAtOrNow
  split
  · trivial
  · exact calls_emit hn

theorem publish_calls (cfg : Config) (run : Run) (jsonl : String) :
    (RunService.publish cfg run jsonl).Calls (S := sig) (RequestOp (.complete run.id jsonl)) := by
  refine Prog.calls_bind (calls_s3_bind.2 ⟨trivial, fun _ => calls_s3_bind.2
    ⟨⟨_, _, rfl⟩, fun _ => trivial⟩⟩) fun url => Prog.calls_ofExcept_bind fun result hr =>
      Prog.calls_ofExcept_bind fun perConcurrency _ => calls_query_bind.2
        ⟨⟨rfl, runId_aggregate _ hr⟩, fun completed => Prog.calls_bind ?_ fun _ => ?_⟩
  · exact Prog.calls_bind (endedAtOrNow_calls trivial _) fun _ => calls_s3 trivial
  · refine calls_s3_bind.2 ⟨trivial, fun _ => Prog.calls_bind (Prog.calls_ofExcept _) fun _ => ?_⟩
    exact Prog.calls_bind (endedAtOrNow_calls trivial _) fun _ => calls_s3 trivial

theorem complete_calls (cfg : Config) (r : RunId) (jsonl : String) :
    (RunService.complete cfg r jsonl).Calls (S := sig) (RequestOp (.complete r jsonl)) := by
  refine calls_query_bind.2 ⟨rfl, fun found => ?_⟩
  match found with
  | none => trivial
  | some ⟨run, hr⟩ =>
    subst hr
    dsimp only
    split
    · trivial
    · exact publish_calls cfg run jsonl

theorem create_calls {A : Op → Prop} (body : RunCreate) (hu : A .uuid4) (hn : A .now)
    (hc : ∀ run : Run, run.status = .queued ∧ run.provisionAttempts = 0 →
      run.engine = body.engine → run.ggufFile = body.ggufFile → A (.db (.runCreate run))) :
    (RunService.create body).Calls (S := sig) A :=
  ⟨hu, fun _ => ⟨hn, fun _ => calls_query (hc _ ⟨rfl, rfl⟩ rfl rfl)⟩⟩

theorem publishCatalogs_calls {A : Op → Prop} (cfg : Config) (entries : List ModelEntry)
    (hm : ∀ b, A (.s3 (.putObject .models (.models b))))
    (hs : ∀ b, A (.s3 (.putObject .scenarios (.scenarios b))))
    (he : ∀ b, A (.s3 (.putObject .engines (.engines b)))) :
    (BenchService.publishCatalogs cfg entries).Calls (S := sig) A := by
  exact calls_s3_bind.2 ⟨hm _, fun _ => Prog.calls_ofExcept_bind fun scenarios _ =>
    calls_s3_bind.2 ⟨hs _, fun _ => calls_s3 (he _)⟩⟩

/-- A run the call creates has the engine and the file of one of the entries. -/
def CreatesFrom (entries : List ModelEntry) (op : Op) : Prop :=
  ∀ run, op = .db (.runCreate run) →
    ∃ entry ∈ entries, run.engine = entry.engine ∧ run.ggufFile = entry.ggufFile

theorem submitEntry_calls {A : Op → Prop} (force : Bool) (modelFilter : Option String)
    (entry : ModelEntry) (out : BenchService.Submission)
    (hA : ∀ op, RequestOp (.submit force modelFilter) op → CreatesFrom [entry] op → A op) :
    (BenchService.submitEntry force entry out).Calls (S := sig) A := by
  have hother : ∀ op, RequestOp (.submit force modelFilter) op →
      (∀ run, op ≠ .db (.runCreate run)) → A op :=
    fun op hop hne => hA op hop fun run hrun => absurd hrun (hne run)
  refine Prog.calls_bind ?_ fun benched => ?_
  · unfold BenchService.benched
    split
    · trivial
    · exact calls_s3 (hother _ trivial fun _ h => (by cases h))
  · split
    · trivial
    · refine calls_query_bind.2 ⟨hother _ trivial fun _ h => (by cases h), fun active => ?_⟩
      split
      · trivial
      · refine Prog.calls_bind ⟨hother _ trivial fun _ h => (by cases h), fun found => ?_⟩ fun _ =>
          Prog.calls_bind ?_ fun _ => trivial
        · refine Prog.calls_ofExcept_bind fun found _ => ?_
          split <;> trivial
        · unfold BenchService.createRun
          split
          · refine create_calls _ (hother _ trivial fun _ h => (by cases h))
              (hother _ trivial fun _ h => (by cases h)) fun run hrun he hg => hA _ hrun ?_
            rintro _ ⟨⟩
            exact ⟨entry, List.mem_singleton_self entry, he, hg⟩
          · trivial

theorem submitEntries_calls {A : Op → Prop} (force : Bool) (modelFilter : Option String)
    (entries : List ModelEntry) (out : BenchService.Submission)
    (hA : ∀ op, RequestOp (.submit force modelFilter) op → CreatesFrom entries op → A op) :
    (BenchService.submitEntries force entries out).Calls (S := sig) A := by
  induction entries generalizing out with
  | nil => trivial
  | cons entry rest ih =>
    refine Prog.calls_bind (submitEntry_calls force modelFilter entry out fun op hop hfrom =>
      hA op hop fun run hrun => ?_) fun out' => ih out' fun op hop hfrom =>
        hA op hop fun run hrun => ?_
    · obtain ⟨e, he, h⟩ := hfrom run hrun
      exact ⟨e, List.mem_singleton.1 he ▸ List.mem_cons_self, h⟩
    · obtain ⟨e, he, h⟩ := hfrom run hrun
      exact ⟨e, List.mem_cons_of_mem _ he, h⟩

theorem mem_of_mem_filterEntries {u : Unicode} {entries : List ModelEntry}
    {modelFilter : Option String} {entry : ModelEntry}
    (h : entry ∈ BenchService.filterEntries u entries modelFilter) : entry ∈ entries := by
  unfold BenchService.filterEntries at h
  split at h
  · exact h
  · split at h
    · exact h
    · exact List.mem_of_mem_filter h

theorem submit_calls {A : Op → Prop} (cfg : Config) (force : Bool) (modelFilter : Option String)
    (hA : ∀ op, RequestOp (.submit force modelFilter) op →
      (∀ entries, cfg.loadModels = .ok entries → CreatesFrom entries op) → A op) :
    (BenchService.submit cfg force modelFilter).Calls (S := sig) A := by
  have hother : ∀ op, RequestOp (.submit force modelFilter) op →
      (∀ run, op ≠ .db (.runCreate run)) → A op :=
    fun op hop hne => hA op hop fun _ _ run hrun => absurd hrun (hne run)
  refine Prog.calls_ofExcept_bind fun all hall => Prog.calls_bind (publishCatalogs_calls cfg _
    (fun _ => hother _ trivial fun _ h => (by cases h))
    (fun _ => hother _ trivial fun _ h => (by cases h))
    fun _ => hother _ trivial fun _ h => (by cases h)) fun _ => ?_
  have hentries : (BenchService.submitEntries force (BenchService.filterEntries cfg.unicode all
      modelFilter) {}).Calls (S := sig) A := by
    refine submitEntries_calls force modelFilter _ _ fun op hop hfrom => hA op hop ?_
    intro entries hload run hrun
    cases hall.symm.trans hload
    obtain ⟨e, he, h⟩ := hfrom run hrun
    exact ⟨e, mem_of_mem_filterEntries he, h⟩
  cases modelFilter with
  | none => exact hentries
  | some needle =>
    dsimp only
    split
    · trivial
    · exact hentries

theorem request_calls (cfg : Config) (req : Request) :
    (req.body cfg).Calls (S := sig) (RequestOp req) := by
  cases req with
  | createRun body =>
    exact Prog.calls_bind (create_calls body trivial trivial fun _ h _ _ => h) fun _ => trivial
  | complete r jsonl =>
    exact Prog.calls_bind (complete_calls cfg r jsonl) fun _ => calls_emit rfl
  | fail r msg =>
    refine Prog.calls_bind (calls_query_bind.2 ⟨rfl, fun run => ?_⟩) fun _ => calls_emit rfl
    match run with
    | none => trivial
    | some run =>
      dsimp only
      split
      · trivial
      · exact calls_query_bind.2 ⟨rfl, fun _ => trivial⟩
  | setPhase r phase =>
    refine calls_query_bind.2 ⟨rfl, fun run => ?_⟩
    match run with
    | none => trivial
    | some run =>
      dsimp only
      split
      · trivial
      · exact calls_query_bind.2 ⟨rfl, fun _ => calls_query_bind.2 ⟨rfl, fun _ => trivial⟩⟩
  | attachLogs r body =>
    refine calls_query_bind.2 ⟨rfl, fun run => ?_⟩
    match run with
    | none => trivial
    | some run =>
      refine Prog.calls_bind (calls_s3_bind.2 ⟨trivial, fun _ => trivial⟩) fun key =>
        calls_query_bind.2 ⟨rfl, fun _ => calls_query_bind.2 ⟨rfl, fun run' => ?_⟩⟩
      split <;> trivial
  | registerNode id g =>
    refine calls_query_bind.2 ⟨trivial, fun node => ?_⟩
    match node with
    | none => exact calls_query_bind.2 ⟨rfl, fun _ => trivial⟩
    | some node => trivial
  | deregisterNode id =>
    refine calls_query_bind.2 ⟨trivial, fun node => ?_⟩
    match node with
    | none => trivial
    | some node =>
      refine calls_query_bind.2 ⟨trivial, fun node' => ?_⟩
      match node' with
      | none => trivial
      | some node' => exact calls_query_bind.2 ⟨rfl, fun _ => trivial⟩
  | submit force modelFilter =>
    exact Prog.calls_bind (submit_calls cfg force modelFilter fun _ h _ => h) fun _ => trivial

theorem body_calls (cfg : Config) (n : TaskName) :
    (n.body cfg).Calls (S := sig) (n.may cfg) := by
  cases n with
  | pollingLoop => exact pollingLoop_calls
  | pollTick => exact pollTick_calls cfg
  | handleQueuedRun r g => exact handleQueuedRun_calls cfg r g
  | releaseNode r | abortStuckProvisioning r => exact releaseNode_calls r
  | recoverOrphanedProvisioningRun r => exact recover_calls cfg r
  | abortStuckRunning r lastPhase => exact abortStuckRunning_calls cfg r lastPhase
  | request req => exact request_calls cfg req

/-- What the repository calls of the code look like, whichever task makes them. -/
def Query.regular (cfg : Config) : Query → Prop
  | .runCreate run => run.status = .queued ∧ run.provisionAttempts = 0
  | .requeueForRetry _ m => m = cfg.provisionMaxAttempts
  | .nodeCreate node => node.currentRunId = none
  | .nodeSave node => node.status = .down
  | .completeRun r _ result => result.runId = r
  | _ => True

theorem regular_of_may {cfg : Config} {n : TaskName} {c : Query} (h : n.may cfg (.db c)) :
    c.regular cfg := by
  cases c with
  | requeueForRetry =>
    cases n with
    | handleQueuedRun | recoverOrphanedProvisioningRun => exact h.2
    | request req => cases req <;> exact h.elim
    | _ => exact h.elim
  | runCreate | nodeCreate | nodeSave | completeRun =>
    cases n with
    | request req => cases req <;> first | exact h.elim | exact h | exact h.2.trans h.1.symm
    | _ => exact h.elim
  | _ => trivial

namespace System
variable {cfg : Config} {w : World} {C : System cfg → Step cfg → Prop} {p : System cfg}

theorem may_of_call (h : Pool.Reach C (start cfg w) p) {i : Nat} {n : (orchestrator cfg).Name}
    {op : sig.Op} {next : sig.Resp op → Prog sig Exc Unit}
    (ht : p.tasks[i]? = some ⟨n, .call op next⟩) : TaskName.may cfg n op :=
  (h.calls (body_calls cfg) ht).1

theorem regular_of_queries (h : Pool.Reach C (start cfg w) p) {l : Step cfg} {c : Query} {e : Env}
    (hc : p.queries l = some (c, e)) : c.regular cfg := by
  obtain ⟨i, n, next, -, ht⟩ := call_of_queries hc
  exact regular_of_may (may_of_call h ht)

end System
end GrillPlatform
