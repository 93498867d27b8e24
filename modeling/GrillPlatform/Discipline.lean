import GrillPlatform.Coroutine.History
import GrillPlatform.Footprint

/-! What each call of a task rests on: the answers the task has had before it makes the call. -/

namespace GrillPlatform
open Coroutine
variable {cfg : Config}

abbrev History := List sig.Answered

def History.has (h : History) (op : Op) (a : op.Resp) : Prop := (⟨op, a⟩ : sig.Answered) ∈ h

def History.found (h : History) (run : Run) : Prop :=
  h.has (.db (.runGet run.id)) (.ok (some ⟨run, rfl⟩))

def History.clock (h : History) (t : Time) : Prop := h.has .now t

def Run.resultsKey (run : Run) : S3Key := runResultsKey run.model run.engine run.id

def Run.logsKey (run : Run) : S3Key := runLogsKey run.model run.engine run.id

/-- The payload is at the run's key, and has been copied to the latest of its pair. -/
structure Shipped (h : History) (run : Run) (jsonl : String) : Prop where
  found : h.found run
  running : run.status = .running
  stored : h.has (.s3 (.putObject run.resultsKey (.jsonl jsonl))) (.ok ())
  copied : h.has (.s3 (.copyObject (latestResultsKey run.model run.engine) run.resultsKey)) (.ok ())

/-- The upload has been committed, and `done` came back. -/
structure Concluded (cfg : Config) (h : History) (run : Run) (jsonl : String) (result : Result)
    (done : RunOf run.id) : Prop extends Shipped h run jsonl where
  aggregated : aggregate cfg.llmGrill jsonl run = .ok result
  committed : h.has (.db (.completeRun run.id run.resultsKey.text result)) (.ok done)

/-- `run.ended_at or datetime.now(timezone.utc)`. -/
def EndsAt (h : History) (run : Run) (t : Time) : Prop :=
  run.endedAt = some t ∨ run.endedAt = none ∧ h.clock t

/-- What a task writes to the bucket, and what it rests on. -/
inductive Puts (cfg : Config) : TaskName → History → S3Key → S3Body → Prop
  | results {h : History} {run : Run} {jsonl : String} (hf : h.found run)
      (hr : run.status = .running) :
      Puts cfg (.request (.complete run.id jsonl)) h run.resultsKey (.jsonl jsonl)
  | latest {h : History} {run : Run} {jsonl : String} {result : Result} {done : RunOf run.id}
      {t : Time} (hc : Concluded cfg h run jsonl result done) (ht : EndsAt h done.1 t) :
      Puts cfg (.request (.complete run.id jsonl)) h (latestMetaKey done.1.model done.1.engine)
        (.completedRun (runMeta done.1 t))
  | leaderboard {h : History} {run : Run} {jsonl : String} {result : Result} {done : RunOf run.id}
      {t : Time} {current : Option S3Body} {entries perConcurrency : List Json}
      (hc : Concluded cfg h run jsonl result done) (ht : EndsAt h done.1 t)
      (hp : aggregatePerConcurrency cfg.llmGrill jsonl = .ok perConcurrency)
      (hg : h.has (.s3 (.getObject .leaderboard)) (.ok current))
      (he : leaderboardEntries current = .ok entries) :
      Puts cfg (.request (.complete run.id jsonl)) h .leaderboard
        (.leaderboard (withoutPair entries done.1.model done.1.engine ++
          [leaderboardEntry done.1 result perConcurrency t]))
  | logs {h : History} {run : Run} {body : List UInt8} (hf : h.found run) :
      Puts cfg (.request (.attachLogs run.id body)) h run.logsKey
        (.log (RunService.truncateLogs body))
  | models {n : TaskName} {h : History} {rows : List ModelRow} : Puts cfg n h .models (.models rows)
  | scenarios {n : TaskName} {h : History} {entries : List ScenarioSummary} :
      Puts cfg n h .scenarios (.scenarios entries)
  | engines {n : TaskName} {h : History} {entries : List (String × String)} :
      Puts cfg n h .engines (.engines entries)

theorem Puts.latest_inv {n : TaskName} {h : History} {key : S3Key} {doc : CompletedRunMeta}
    (hp : Puts cfg n h key (.completedRun doc)) : ∃ run jsonl result, ∃ (done : RunOf run.id)
      (t : Time), n = .request (.complete run.id jsonl) ∧ Concluded cfg h run jsonl result done ∧
      key = latestMetaKey done.1.model done.1.engine ∧ doc = runMeta done.1 t := by
  generalize hbody : S3Body.completedRun doc = body at hp
  cases hp with
  | latest hc ht => exact ⟨_, _, _, _, _, rfl, hc, rfl, S3Body.completedRun.inj hbody⟩
  | _ => cases hbody

theorem Puts.leaderboard_inv {n : TaskName} {h : History} {key : S3Key} {entries : List Json}
    (hp : Puts cfg n h key (.leaderboard entries)) : ∃ run jsonl result, ∃ (done : RunOf run.id)
      (t : Time) (current : Option S3Body) (old perConcurrency : List Json),
      n = .request (.complete run.id jsonl) ∧ Concluded cfg h run jsonl result done ∧
      aggregatePerConcurrency cfg.llmGrill jsonl = .ok perConcurrency ∧
      h.has (.s3 (.getObject .leaderboard)) (.ok current) ∧ leaderboardEntries current = .ok old ∧
      entries = withoutPair old done.1.model done.1.engine ++
        [leaderboardEntry done.1 result perConcurrency t] := by
  generalize hbody : S3Body.leaderboard entries = body at hp
  cases hp with
  | leaderboard hc ht hpc hg he =>
    exact ⟨_, _, _, _, _, _, _, _, rfl, hc, hpc, hg, he, S3Body.leaderboard.inj hbody⟩
  | _ => cases hbody

theorem leaderboardEntries_ok {current : Option S3Body} {entries : List Json}
    (h : leaderboardEntries current = .ok entries) :
    entries = [] ∨ current = some (.leaderboard entries) := by
  match current with
  | none => exact .inl (Except.ok.inj h).symm
  | some (.leaderboard es) =>
    simp only [leaderboardEntries] at h
    split at h
    · exact .inr (by rw [Except.ok.inj h])
    · cases h
  | some (.jsonl _) | some (.log _) | some (.completedRun _) | some (.models _)
  | some (.scenarios _) | some (.engines _) => cases h

def Run.fresh (run : Run) : Prop :=
  run.status = .queued ∧ run.resultsUrl = none ∧ run.logsUrl = none ∧
    run.provisioningStartedAt = none ∧ run.currentPhase = none ∧ run.phaseUpdatedAt = none ∧
    run.startedAt = none ∧ run.endedAt = none

def rests (cfg : Config) (n : TaskName) (h : History) : Op → Prop
  | .db (.setRunning _ t) => h.clock t
  | .db (.setFailed _ t msg) => h.clock t ∧ msg.isSome
  | .db (.runCreate run) => h.clock run.createdAt ∧ run.fresh
  | .db (.completeRun r url result) => ∃ run jsonl, run.id = r ∧
      n = .request (.complete r jsonl) ∧ Shipped h run jsonl ∧
      aggregate cfg.llmGrill jsonl run = .ok result ∧ url = run.resultsKey.text
  | .db (.setLogsUrl r url) => ∃ run body, run.id = r ∧ h.found run ∧
      h.has (.s3 (.putObject run.logsKey (.log body))) (.ok ()) ∧ url = run.logsKey.text
  | .s3 (.putObject key body) => Puts cfg n h key body
  | .s3 (.copyObject key source) => ∃ run jsonl, n = .request (.complete run.id jsonl) ∧
      h.found run ∧ h.has (.s3 (.putObject run.resultsKey (.jsonl jsonl))) (.ok ()) ∧
      key = latestResultsKey run.model run.engine ∧ source = run.resultsKey
  | _ => True

/-- Every call of a task rests on answers it has had. -/
abbrev discipline (cfg : Config) : Protocol sig (TaskName × History) := Prog.resting (rests cfg)

def Free : Op → Prop
  | .db (.setRunning ..) | .db (.setFailed ..) | .db (.runCreate _) | .db (.completeRun ..)
  | .db (.setLogsUrl ..) | .s3 (.putObject ..) | .s3 (.copyObject ..) => False
  | _ => True

theorem rests_of_free {n : TaskName} {op : Op} (hop : Free op) (h : History) :
    rests cfg n h op := by
  unfold rests
  split <;> first | exact hop.elim | trivial

section
variable {n : TaskName} {α : Type}

abbrev Of (n : TaskName) (γ : TaskName × History) : Prop := γ.1 = n

theorem maintains_free {p : Async α} (hp : p.Calls (S := sig) Free) :
    p.Maintains (discipline cfg) (Of n) :=
  Prog.maintains_resting (hp.mono fun _ hop h => rests_of_free hop h)

theorem free_of_provisionOp {r : RunId} (op : Op) (h : ProvisionOp r op) : Free op := by
  unfold ProvisionOp at h
  split at h <;> first | exact h.elim | trivial

theorem free_of_destroyOp {r : RunId} (op : Op) (h : DestroyOp r op) : Free op := by
  unfold DestroyOp at h
  split at h <;> first | exact h.elim | trivial

theorem free_of_releaseOp {r : RunId} (op : Op) (h : ReleaseOp r op) : Free op := by
  unfold ReleaseOp at h
  split at h
  · trivial
  · trivial
  · trivial
  · trivial
  · exact free_of_destroyOp op h

theorem setFailed_disciplined (r : RunId) (reason : String) :
    (setFailed r reason).Maintains (discipline cfg) (Of n) := fun _ hγ =>
  ⟨trivial, fun _ => follows_query_bind ⟨List.mem_cons_self, rfl⟩ (fun _ => hγ) fun _ => hγ⟩

theorem query_disciplined (q : Query) (h : Free (.db q)) :
    (query q).Maintains (discipline cfg) (Of n) := maintains_free (calls_query h)

theorem fail_disciplined (r : RunId) (reason : String) :
    (fail r reason).Maintains (discipline cfg) (Of n) :=
  Prog.maintains_bind (query_disciplined (.setDownByRun r) trivial) fun _ =>
    setFailed_disciplined r reason

theorem markRunning_disciplined (r : RunId) (i : NodeId) (ip : String) :
    (markRunning r i ip).Maintains (discipline cfg) (Of n) :=
  Prog.maintains_bind (query_disciplined (.setBusy r i ip) trivial) fun _ _ hγ =>
    ⟨trivial, fun _ => follows_query_bind List.mem_cons_self (fun _ => hγ) fun _ => hγ⟩

theorem handleQueuedRun_disciplined (cfg : Config) (r : RunId) (g : GpuType) :
    (handleQueuedRun cfg r g).Maintains (discipline cfg) (Of n) := by
  have hrequeue : ∀ reason, (requeueOrGiveUp cfg r reason).Maintains (discipline cfg) (Of n) := by
    intro reason
    have hdestroy : (safeDestroy r).Maintains (discipline cfg) (Of n) :=
      maintains_free (Prog.calls_tryCatch (destroyNode_calls r trivial trivial free_of_destroyOp)
        fun _ => trivial)
    refine Prog.maintains_bind hdestroy fun _ => Prog.maintains_bind
      (query_disciplined (.requeueForRetry r _) trivial) fun attempt =>
        Prog.maintains_bind (query_disciplined (.setDownByRun r) trivial) fun _ => ?_
    cases attempt with
    | none => exact setFailed_disciplined r _
    | some _ => exact Prog.maintains_pure ()
  refine Prog.maintains_tryCatch (Prog.maintains_bind
    (query_disciplined (.createProvisioning r g) trivial) fun _ => Prog.maintains_bind
      (query_disciplined (.runGet r) trivial) fun found => ?_) fun _ => fail_disciplined r _
  cases found with
  | none => exact query_disciplined (.setDownByRun r) trivial
  | some run =>
    refine Prog.maintains_bind (Prog.maintains_attempt (maintains_free
      (provisionNode_calls cfg run.1 trivial trivial free_of_provisionOp))) fun out => ?_
    cases out with
    | ok node => exact markRunning_disciplined r node.1 node.2
    | error exc =>
      show (onProvisionError cfg r exc).Maintains (discipline cfg) (Of n)
      unfold onProvisionError
      split
      · exact hrequeue _
      · split <;> exact fail_disciplined r _

theorem recover_disciplined (cfg : Config) (r : RunId) :
    (recoverOrphanedProvisioningRun cfg r).Maintains (discipline cfg) (Of n) := by
  refine Prog.maintains_bind (maintains_free ((releaseNode_calls r).mono free_of_releaseOp))
    fun _ => Prog.maintains_bind (query_disciplined (.requeueForRetry r _) trivial)
      fun attempt => ?_
  cases attempt with
  | none => exact setFailed_disciplined r _
  | some _ => exact Prog.maintains_pure ()

/-! ## The requests -/

theorem create_disciplined (body : RunCreate) :
    (RunService.create body).Maintains (discipline cfg) (Of n) := by
  intro γ hγ
  refine ⟨trivial, fun id => ⟨trivial, fun now => ⟨⟨List.mem_cons_self, ?_⟩, fun a => ?_⟩⟩⟩
  · exact ⟨rfl, rfl, rfl, rfl, rfl, rfl, rfl, rfl⟩
  · exact (Prog.follows_ofExcept a).2 hγ

theorem submitEntry_disciplined (force : Bool) (entry : ModelEntry)
    (out : BenchService.Submission) :
    (BenchService.submitEntry force entry out).Maintains (discipline cfg) (Of n) := by
  refine Prog.maintains_bind ?_ fun benched => ?_
  · unfold BenchService.benched
    split
    · exact Prog.maintains_pure false
    · exact maintains_free (calls_s3 trivial)
  · split
    · exact Prog.maintains_pure _
    · refine Prog.maintains_bind (query_disciplined (.hasActiveRun _ _) trivial) fun active => ?_
      split
      · exact Prog.maintains_pure _
      · have hfound : (BenchService.checkHfExists entry.model).Calls (S := sig) Free := by
          refine ⟨trivial, fun found => Prog.calls_ofExcept_bind fun found _ => ?_⟩
          split <;> trivial
        refine Prog.maintains_bind (maintains_free hfound) fun _ => Prog.maintains_bind ?_
          fun _ => Prog.maintains_pure _
        unfold BenchService.createRun
        split
        · exact create_disciplined _
        · exact fun _ hγ => hγ

theorem submit_disciplined (force : Bool) (modelFilter : Option String) :
    (BenchService.submit cfg force modelFilter).Maintains (discipline cfg) (Of n) := by
  have hentries : ∀ entries out, (BenchService.submitEntries force entries out).Maintains
      (discipline cfg) (Of n) := by
    intro entries
    induction entries with
    | nil => exact fun out => Prog.maintains_pure out
    | cons entry rest ih =>
      exact fun out => Prog.maintains_bind (submitEntry_disciplined force entry out) fun out' =>
        ih out'
  refine Prog.maintains_bind (maintains_free (Prog.calls_ofExcept _)) fun all =>
    Prog.maintains_bind (Prog.maintains_resting (publishCatalogs_calls cfg all
      (fun _ _ => .models) (fun _ _ => .scenarios) fun _ _ => .engines)) fun _ => ?_
  cases modelFilter with
  | none => exact hentries _ _
  | some needle =>
    dsimp only
    split
    · exact fun _ hγ => hγ
    · exact hentries _ _

theorem attachLogs_disciplined (r : RunId) (body : List UInt8) (h : History) :
    (RunService.attachLogs r body).Follows (discipline cfg) (fun _ _ => True)
      (.request (.attachLogs r body), h) := by
  refine follows_query_bind trivial (fun found => ?_) fun _ => trivial
  match found with
  | none => trivial
  | some ⟨run, hr⟩ =>
    subst hr
    refine Prog.follows_bind.2 (follows_s3_bind (.logs List.mem_cons_self) (fun _ => ?_)
      fun _ => trivial)
    refine follows_query_bind ?_ (fun _ => follows_query_bind trivial (fun found' => ?_)
      fun _ => trivial) fun _ => trivial
    · exact ⟨run, _, rfl, List.mem_cons_of_mem _ List.mem_cons_self, List.mem_cons_self, rfl⟩
    · split <;> trivial

end

theorem endedAtOrNow_disciplined {α : Type} {n : TaskName} {h : History} {run : Run}
    {f : Time → Async α} (hf : ∀ t h', (∀ x ∈ h, x ∈ h') → EndsAt h' run t →
      (f t).Follows (discipline cfg) (fun _ _ => True) (n, h')) :
    ((endedAtOrNow run).bind f).Follows (discipline cfg) (fun _ _ => True) (n, h) := by
  unfold endedAtOrNow
  cases he : run.endedAt with
  | some t => exact hf t h (fun _ hx => hx) (.inl he)
  | none =>
    exact ⟨trivial, fun t => hf t _ (fun _ hx => List.mem_cons_of_mem _ hx)
      (.inr ⟨he, List.mem_cons_self⟩)⟩

theorem Concluded.mono {h h' : History} {run : Run} {jsonl : String} {result : Result}
    {done : RunOf run.id} (hc : Concluded cfg h run jsonl result done)
    (hsub : ∀ x ∈ h, x ∈ h') : Concluded cfg h' run jsonl result done :=
  ⟨⟨hsub _ hc.found, hc.running, hsub _ hc.stored, hsub _ hc.copied⟩, hc.aggregated,
    hsub _ hc.committed⟩

theorem updateLeaderboardFor_disciplined {h : History} {run : Run} {jsonl : String}
    {result : Result} {done : RunOf run.id} {perConcurrency : List Json}
    (hc : Concluded cfg h run jsonl result done)
    (hp : aggregatePerConcurrency cfg.llmGrill jsonl = .ok perConcurrency) :
    (updateLeaderboardFor done.1 result perConcurrency).Follows (discipline cfg)
      (fun _ _ => True) (.request (.complete run.id jsonl), h) := by
  refine follows_s3_bind trivial (fun current => ?_) fun _ => trivial
  refine follows_answer (fun entries he => ?_) fun _ _ => trivial
  refine endedAtOrNow_disciplined fun t h' hsub ht => ⟨?_, fun a => ?_⟩
  · exact .leaderboard (hc.mono fun x hx => hsub x (List.mem_cons_of_mem _ hx)) ht hp
      (hsub _ List.mem_cons_self) he
  · exact (Prog.follows_ofExcept a).2 trivial

theorem uploadMeta_disciplined {α : Type} {h : History} {run : Run} {jsonl : String}
    {result : Result} {done : RunOf run.id} {f : Unit → Async α}
    (hc : Concluded cfg h run jsonl result done)
    (hf : ∀ h', Concluded cfg h' run jsonl result done → (f ()).Follows (discipline cfg)
      (fun _ _ => True) (.request (.complete run.id jsonl), h')) :
    ((uploadMeta done.1).bind f).Follows (discipline cfg) (fun _ _ => True)
      (.request (.complete run.id jsonl), h) := by
  show (Prog.bind (Prog.bind _ _) _).Follows _ _ _
  rw [Prog.bind_assoc]
  refine endedAtOrNow_disciplined fun t h' hsub ht => ?_
  have hc' := hc.mono hsub
  exact follows_s3_bind (.latest hc' ht) (fun _ => hf _ (hc'.mono fun x hx =>
    List.mem_cons_of_mem _ hx)) fun _ => trivial

theorem uploadResults_disciplined {α : Type} {h : History} {run : Run} {jsonl : String}
    {f : S3Key → Async α} (hfound : h.found run) (hr : run.status = .running)
    (hf : ∀ h', Shipped h' run jsonl → (f run.resultsKey).Follows (discipline cfg)
      (fun _ _ => True) (.request (.complete run.id jsonl), h')) :
    ((uploadResults run jsonl).bind f).Follows (discipline cfg) (fun _ _ => True)
      (.request (.complete run.id jsonl), h) := by
  refine Prog.follows_bind.2 (follows_s3_bind (.results hfound hr) (fun _ => ?_) fun _ => trivial)
  refine follows_s3_bind ?_ (fun _ => hf _ ?_) fun _ => trivial
  · exact ⟨run, jsonl, rfl, List.mem_cons_of_mem _ hfound, List.mem_cons_self, rfl, rfl⟩
  · exact ⟨List.mem_cons_of_mem _ (List.mem_cons_of_mem _ hfound), hr,
      List.mem_cons_of_mem _ List.mem_cons_self, List.mem_cons_self⟩

theorem publish_disciplined {h : History} {run : Run} (hf : h.found run)
    (hr : run.status = .running) (jsonl : String) :
    (RunService.publish cfg run jsonl).Follows (discipline cfg) (fun _ _ => True)
      (.request (.complete run.id jsonl), h) := by
  refine uploadResults_disciplined hf hr fun h' hup => ?_
  refine follows_answer (fun result hresult => ?_) fun _ _ => trivial
  refine follows_answer (fun perConcurrency hp => ?_) fun _ _ => trivial
  refine follows_query_bind ⟨run, jsonl, rfl, rfl, hup, hresult, rfl⟩ (fun done => ?_)
    fun _ => trivial
  refine uploadMeta_disciplined ⟨⟨List.mem_cons_of_mem _ hup.found, hr,
    List.mem_cons_of_mem _ hup.stored, List.mem_cons_of_mem _ hup.copied⟩, hresult,
    List.mem_cons_self⟩ fun h' hc => updateLeaderboardFor_disciplined hc hp

theorem complete_disciplined (cfg : Config) (r : RunId) (jsonl : String) (h : History) :
    (RunController.complete cfg r jsonl).Follows (discipline cfg) (fun _ _ => True)
      (.request (.complete r jsonl), h) := by
  have hservice : (RunService.complete cfg r jsonl).Follows (discipline cfg) (fun _ _ => True)
      (.request (.complete r jsonl), h) := by
    refine follows_query_bind trivial (fun found => ?_) fun _ => trivial
    match found with
    | none => trivial
    | some ⟨run, hr⟩ =>
      subst hr
      dsimp only
      split
      · trivial
      · exact publish_disciplined List.mem_cons_self (not_not.1 ‹_›) jsonl
  refine Prog.follows_bind.2 (hservice.mono fun γ out _ => ?_)
  cases out with
  | error x => trivial
  | ok _ => exact ⟨trivial, fun _ => trivial⟩

def Request.plain : Request → Prop
  | .fail .. | .setPhase .. | .registerNode .. | .deregisterNode _ => True
  | _ => False

theorem free_of_requestOp {req : Request} (hreq : req.plain) (op : Op) (h : RequestOp req op) :
    Free op := by
  unfold RequestOp at h
  split at h <;> first | exact h.elim | trivial

theorem body_disciplined (cfg : Config) (n : TaskName) :
    (n.body cfg).Follows (discipline cfg) (fun _ _ => True) (n, []) := by
  have hmaintains {p : Async Unit} (hp : p.Maintains (discipline cfg) (Of n)) :
      p.Follows (discipline cfg) (fun _ _ => True) (n, []) := hp.follows rfl fun _ _ _ => trivial
  have hfree {p : Async Unit} (hp : p.Calls (S := sig) Free) :
      p.Follows (discipline cfg) (fun _ _ => True) (n, []) := hmaintains (maintains_free hp)
  have hplain (req : Request) (hreq : req.plain) :
      (req.body cfg).Follows (discipline cfg) (fun _ _ => True) (n, []) :=
    hfree ((request_calls cfg req).mono (free_of_requestOp hreq))
  cases n with
  | pollingLoop =>
    refine hfree (pollingLoop_calls.mono fun op h => ?_)
    unfold BootOp at h
    split at h <;> first | exact h.elim | trivial
  | pollTick =>
    refine hfree ((pollTick_calls cfg).mono fun op h => ?_)
    unfold TickOp at h
    split at h <;> first | exact h.elim | trivial
  | handleQueuedRun r g => exact hmaintains (handleQueuedRun_disciplined cfg r g)
  | releaseNode r | abortStuckProvisioning r =>
    exact hfree ((releaseNode_calls r).mono free_of_releaseOp)
  | recoverOrphanedProvisioningRun r => exact hmaintains (recover_disciplined cfg r)
  | abortStuckRunning r lastPhase =>
    exact hmaintains (Prog.maintains_bind (maintains_free ((releaseNode_calls r).mono
      free_of_releaseOp)) fun _ => setFailed_disciplined r _)
  | request req =>
    cases req with
    | createRun body =>
      exact hmaintains (Prog.maintains_bind (create_disciplined body) fun _ =>
        Prog.maintains_pure ())
    | complete r jsonl => exact complete_disciplined cfg r jsonl []
    | attachLogs r body => exact attachLogs_disciplined r body []
    | submit force modelFilter =>
      exact hmaintains (Prog.maintains_bind (submit_disciplined force modelFilter) fun _ =>
        Prog.maintains_pure ())
    | fail r msg => exact hplain (.fail r msg) trivial
    | setPhase r phase => exact hplain (.setPhase r phase) trivial
    | registerNode i g => exact hplain (.registerNode i g) trivial
    | deregisterNode i => exact hplain (.deregisterNode i) trivial

end GrillPlatform
