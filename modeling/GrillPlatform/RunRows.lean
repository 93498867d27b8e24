import GrillPlatform.System

/-! What one committed call does to one row of `runs`. Every invariant about runs is read off
these cases. -/

namespace GrillPlatform
open Coroutine RunRepository

/-- The writes to a run, by the call that makes them. -/
inductive RowWrite (now : Time) : Query → Run → Run → Prop
  | claim {run : Run} {limit : Int} (hq : run.status = .queued) :
      RowWrite now (.claimQueued run.gpuTypeRequired limit) run
        { run with status := .provisioning, provisioningStartedAt := some now }
  | complete {run : Run} {url : String} {result : Result} :
      RowWrite now (.completeRun run.id url result) run
        { run with status := .done, endedAt := some now, resultsUrl := some url }
  | fail {run : Run} {msg : String} :
      RowWrite now (.failRun run.id msg) run
        { run with status := .failed, errorMessage := some msg, endedAt := some now }
  | running {run : Run} {t : Time} :
      RowWrite now (.setRunning run.id t) run { run with status := .running, startedAt := some t }
  | logs {run : Run} {url : String} :
      RowWrite now (.setLogsUrl run.id url) run { run with logsUrl := some url }
  | phase {run : Run} {phase : String} (hr : run.status = .running) :
      RowWrite now (.setPhase run.id phase) run
        { run with currentPhase := some phase, phaseUpdatedAt := some now }
  | reapRunning {run : Run} {cutoff : Time} (hc : runningTimedOut cutoff run = true) :
      RowWrite now (.claimRunningTimedOut cutoff) run
        { run with status := .failed, endedAt := some now,
                   errorMessage := some "timeout: claimed by reaper" }
  | reapProvisioning {run : Run} {cutoff : Time} (hc : provisioningTimedOut cutoff run = true) :
      RowWrite now (.claimProvisioningTimedOut cutoff) run
        { run with status := .failed, endedAt := some now,
                   errorMessage := some "timeout: stuck in provisioning" }
  | requeue {run : Run} {m : Int} (hm : ¬ m ≤ run.provisionAttempts + 1) :
      RowWrite now (.requeueForRetry run.id m) run
        { run with provisionAttempts := run.provisionAttempts + 1, status := .queued }
  | exhausted {run : Run} {m : Int} (hm : m ≤ run.provisionAttempts + 1) :
      RowWrite now (.requeueForRetry run.id m) run
        { run with provisionAttempts := run.provisionAttempts + 1 }
  | failed {run : Run} {t : Time} {msg : Option String} :
      RowWrite now (.setFailed run.id t msg) run
        { run with status := .failed, endedAt := some t,
                   errorMessage := if msg.isSome then msg else run.errorMessage }

/-- Row `r` after a call: as before, written, or just created. -/
def RowStep (now : Time) (q : Query) (r : RunId) (x y : Option Run) : Prop :=
  y = x ∨ (∃ run run', x = some run ∧ y = some run' ∧ RowWrite now q run run') ∨
    ∃ run, q = .runCreate run ∧ run.id = r ∧ x = none ∧ y = some run

theorem rowStep_modifyRun {now : Time} {q : Query} {db : Db} {r : RunId} {f : Run → Run} {hf}
    (h : ∀ run, run.id = r → RowWrite now q run (f run)) (r' : RunId) :
    RowStep now q r' (db.runs.get r') ((db.modifyRun r f hf).runs.get r') := by
  rw [Db.get_modifyRun]
  split
  · rename_i e
    subst e
    cases hg : db.runs.get r' with
    | none => exact .inl rfl
    | some run => exact .inr (.inl ⟨run, f run, rfl, rfl, h run (Table.key_of_get hg)⟩)
  · exact .inl rfl

theorem rowStep_modifyRuns {now : Time} {q : Query} {db : Db} {p : Run → Bool} {f : Run → Run}
    {hf} (h : ∀ run ∈ db.runs.rows, p run = true → RowWrite now q run (f run)) (r : RunId) :
    RowStep now q r (db.runs.get r) ((db.modifyRuns p f hf).runs.get r) := by
  rw [Db.get_modifyRuns]
  cases hg : db.runs.get r with
  | none => exact .inl rfl
  | some run =>
    by_cases hp : p run
    · refine .inr (.inl ⟨run, f run, rfl, by simp [hp], h run (Table.get_eq_some.1 hg).1 hp⟩)
    · exact .inl (by simp [hp])

theorem rowStep_onRun {now : Time} {q : Query} {db db' : Db} {r : RunId} {missing : String}
    {f : Run → Run} {hf} {a : RunOf r} (h : onRun r missing f hf db = .ok (a, db'))
    (hw : ∀ run, run.id = r → RowWrite now q run (f run)) (r' : RunId) :
    RowStep now q r' (db.runs.get r') (db'.runs.get r') := by
  obtain ⟨_, _, _, rfl⟩ := onRun_ok h
  exact rowStep_modifyRun hw r'

/-- A repository call commits nothing on `runs` but these writes. -/
theorem Query.rowStep {q : Query} {pick : List RunId} {now : Time} {db db' : Db} {a : q.Resp}
    (h : q.tx pick now db = .ok (a, db')) (r : RunId) :
    RowStep now q r (db.runs.get r) (db'.runs.get r) := by
  -- one case for each write of `RunRepository`; the other calls leave `runs` alone
  cases q with
  | claimQueued g limit =>
    simp only [tx, RunRepository.claimQueued] at h
    split at h
    · cases h; exact .inl rfl
    · cases h
      refine rowStep_modifyRuns (fun run hr hp => ?_) r
      have hc :=
        limited_subset (by simpa using hp : run.id ∈ limited pick (queuedIds db g) limit.toNat)
      obtain ⟨x, hx, hs, rfl⟩ := mem_queuedIds.1 hc
      obtain ⟨hx, hk⟩ := Table.get_eq_some.1 hx
      obtain rfl := Table.eq_of_key hx hr hk
      exact .claim hs
  | runCreate run =>
    obtain ⟨-, -, runs, hi, rfl⟩ := create_ok h
    rw [Table.get_insert hi]
    split
    · rename_i e
      subst e
      refine .inr (.inr ⟨run, rfl, rfl, Table.get_eq_none.2 fun x hx e => ?_, rfl⟩)
      exact (Table.rows_insert hi).2 (List.mem_map.2 ⟨x, hx, e⟩)
    · exact .inl rfl
  | completeRun r' url result =>
    simp only [tx, RunRepository.completeRun] at h
    split at h
    · cases h
    · rename_i db₁ ho
      split at h
      · cases h
      · cases h
        exact rowStep_onRun ho (fun run e => by subst e; exact .complete) r
  | failRun r' msg => exact rowStep_onRun h (fun run e => by subst e; exact .fail) r
  | setRunning r' t => exact rowStep_onRun h (fun run e => by subst e; exact .running) r
  | setLogsUrl r' url => exact rowStep_onRun h (fun run e => by subst e; exact .logs) r
  | setFailed r' t msg => exact rowStep_onRun h (fun run e => by subst e; exact .failed) r
  | setPhase r' phase =>
    obtain ⟨_, _, _, rfl⟩ := onRun_ok h
    rw [Db.get_modifyRun]
    split
    · rename_i e
      subst e
      cases hg : db.runs.get r with
      | none => exact .inl rfl
      | some run =>
        obtain rfl := Table.key_of_get hg
        by_cases hr : run.status = .running
        · exact .inr (.inl ⟨run, _, rfl, rfl, by simpa [hr] using RowWrite.phase hr⟩)
        · exact .inl (by simp [hr])
    · exact .inl rfl
  | claimRunningTimedOut cutoff =>
    cases h
    exact rowStep_modifyRuns (fun run _ hp => .reapRunning hp) r
  | claimProvisioningTimedOut cutoff =>
    cases h
    exact rowStep_modifyRuns (fun run _ hp => .reapProvisioning hp) r
  | requeueForRetry r' m =>
    simp only [tx, RunRepository.requeueForRetry] at h
    split at h
    · cases h
    · rename_i run db₁ ho
      cases h
      refine rowStep_onRun ho (fun run e => ?_) r
      subst e
      simp only [retried]
      split
      · exact .exhausted (by omega)
      · exact .requeue (by omega)
  | nodeCreate | nodeSave | createProvisioning | setBusy | setDownByRun =>
    exact .inl (congrArg (·.get r) (frame_nodes h rfl).1)
  | _ => cases h; exact .inl rfl

theorem RowWrite.id_eq {now : Time} {q : Query} {run run' : Run} (h : RowWrite now q run run') :
    run'.id = run.id ∧ run'.gpuTypeRequired = run.gpuTypeRequired := by
  cases h <;> exact ⟨rfl, rfl⟩

theorem RowWrite.queued {now : Time} {q : Query} {run run' : Run} (h : RowWrite now q run run')
    (hq : run'.status = .queued) :
    run.status = .queued ∨ ∃ m, q = .requeueForRetry run.id m := by
  cases h with
  | requeue => exact .inr ⟨_, rfl⟩
  | logs | phase | exhausted => exact .inl hq
  | _ => cases hq

theorem RowStep.kept {now : Time} {q : Query} {r : RunId} {x y : Option Run}
    (h : RowStep now q r x y) {run : Run} (hx : x = some run) :
    ∃ run', y = some run' ∧ run'.gpuTypeRequired = run.gpuTypeRequired := by
  rcases h with rfl | ⟨a, b, ha, rfl, hw⟩ | ⟨_, _, _, hn, _⟩
  · exact ⟨run, hx, rfl⟩
  · cases ha.symm.trans hx
    exact ⟨b, rfl, hw.id_eq.2⟩
  · cases hn.symm.trans hx

theorem row_after {cfg : Config} (p : System cfg) (i : Nat) (e : (orchestrator cfg).Env)
    (n : (orchestrator cfg).Name) (op : sig.Op) (next : sig.Resp op → Prog sig Exc Unit)
    {r : RunId} {x : Run} (hx : p.world.db.runs.get r = some x) :
    (p.after i n op next e).world.db.runs.get r = some x ∨ ∃ c y, (op : Op) = .db c ∧
      e.fault ≠ .before ∧ (p.after i n op next e).world.db.runs.get r = some y ∧
      RowWrite (p.world.clock + e.elapsed) c x y := by
  rcases System.after_db p i e n op next with he | ⟨c, a, hop, hf, htx⟩
  · exact .inl (by rw [he, hx])
  rcases Query.rowStep htx r with he | ⟨x', y, hx', hy, hw⟩ | ⟨_, _, _, hn, _⟩
  · exact .inl (by rw [he, hx])
  · cases hx'.symm.trans hx
    exact .inr ⟨c, y, hop, hf, hy, hw⟩
  · cases hn.symm.trans hx

theorem System.run_step {cfg : Config} {p q : System cfg} {l : Step cfg}
    (h : p.step l = some q) {r : RunId} {run : Run} (hr : p.world.db.runs.get r = some run) :
    ∃ run', q.world.db.runs.get r = some run' ∧ run'.gpuTypeRequired = run.gpuTypeRequired := by
  rcases step_db h with he | ⟨c, e, t, a, -, ha⟩
  · exact ⟨run, by rw [he, hr], rfl⟩
  · exact (c.rowStep ha r).kept hr

theorem System.status_step {cfg : Config} {p q : System cfg} {l : Step cfg}
    (h : p.step l = some q) {r : RunId} {s : RunStatus} (hs : p.world.db.status r = some s) :
    ∃ s', q.world.db.status r = some s' := by
  obtain ⟨run, hg, -⟩ := Db.get_of_status hs
  obtain ⟨run', hg', -⟩ := run_step h hg
  exact ⟨run'.status, Db.status_of_get hg'⟩

end GrillPlatform
