import GrillPlatform.RunRows
import GrillPlatform.Handover

/-! What the two watchdogs measure. An observer who sees the steps of an execution, and not the
timestamps in the rows, notes when each run was last claimed from the queue and last set running;
the watchdogs fail the runs whose note lies before the cutoff. -/

namespace GrillPlatform
open Coroutine RunRepository
variable {cfg : Config} {r : RunId}

structure Notes where
  /-- When each task last went on. The call it waits for was made then. -/
  ran : Nat → Time := fun _ => 0
  /-- When each run was last claimed from the queue. -/
  claimed : RunId → Option Time := fun _ => none
  /-- When the last `set_running` of each run was called. -/
  started : RunId → Option Time := fun _ => none

/-- The time of a `claim_queued` that takes the run from the queue. -/
def claimTime (r : RunId) (p : System cfg) (l : Step cfg) (q : System cfg) : Option Time :=
  match p.queries l with
  | some (.claimQueued .., _) =>
    if p.world.db.status r = some .queued ∧ q.world.db.status r = some .provisioning then
      some q.world.clock
    else none
  | _ => none

/-- The time at which a `set_running` of the run was called that now takes effect. -/
def startTime (ran : Nat → Time) (r : RunId) (p : System cfg) : Step cfg → Option Time
  | .run i e =>
    match p.queries (.run i e) with
    | some (.setRunning r' _, _) =>
      if r' = r ∧ e.fault ≠ .before ∧ (p.world.db.runs.get r).isSome then some (ran i) else none
    | _ => none
  | _ => none

def Notes.note (p : System cfg) (l : Step cfg) (q : System cfg) (o : Notes) : Notes where
  ran := match l with
    | .run i _ => Function.update o.ran i q.world.clock
    | _ => o.ran
  claimed r := (claimTime r p l q).or (o.claimed r)
  started r := (startTime o.ran r p l).or (o.started r)

def Prompt (γ : Option Time) : Op → Prop
  | .db (.setRunning _ t) => γ = some t
  | _ => True

def reading : (op : Op) → op.Resp → Option Time
  | .now, t => some t
  | _, _ => none

/-- The ghost state is the clock if the task has just read it. -/
def prompt : Protocol sig (Option Time) := ⟨Prompt, fun _ => reading⟩

def Unstarted : Op → Prop
  | .db (.setRunning ..) => False
  | _ => True

section
variable {α : Type} {P : Async α}

theorem prompt_of_calls (h : P.Calls (S := sig) Unstarted) : P.Maintains prompt fun _ => True := by
  refine h.maintains fun γ op _ ha => ⟨?_, fun _ => trivial⟩
  show Prompt γ op
  unfold Prompt
  split
  · exact ha.elim
  · trivial

theorem unstarted_of_provisionOp {r : RunId} (op : Op) (h : ProvisionOp r op) : Unstarted op := by
  unfold ProvisionOp at h
  split at h <;> first | exact h.elim | trivial

theorem unstarted_of_destroyOp {r : RunId} (op : Op) (h : DestroyOp r op) : Unstarted op := by
  unfold DestroyOp at h
  split at h <;> first | exact h.elim | trivial

end

theorem fail_unstarted (r : RunId) (reason : String) :
    (fail r reason).Calls (S := sig) Unstarted :=
  calls_query_bind.2 ⟨trivial, fun _ => setFailed_calls trivial fun _ _ => trivial⟩

theorem onProvisionError_unstarted (cfg : Config) (r : RunId) (exc : Exc) :
    (onProvisionError cfg r exc).Calls (S := sig) Unstarted := by
  unfold onProvisionError
  split
  · refine Prog.calls_bind (Prog.calls_tryCatch
      (destroyNode_calls r trivial trivial unstarted_of_destroyOp) fun _ => trivial) fun _ =>
      calls_query_bind.2 ⟨trivial, fun attempt => calls_query_bind.2 ⟨trivial, fun _ => ?_⟩⟩
    cases attempt with
    | none => exact setFailed_calls trivial fun _ _ => trivial
    | some _ => trivial
  · split <;> exact fail_unstarted _ _

theorem markRunning_prompt (r : RunId) (i : NodeId) (ip : String) :
    (markRunning r i ip).Maintains prompt fun _ => True := by
  refine Prog.maintains_bind (prompt_of_calls (calls_query trivial)) fun _ _ _ => ?_
  exact ⟨trivial, fun now => follows_query_bind rfl (fun _ => trivial) fun _ => trivial⟩

theorem handleQueuedRun_prompt (cfg : Config) (r : RunId) (g : GpuType) :
    (handleQueuedRun cfg r g).Maintains prompt fun _ => True := by
  refine Prog.maintains_tryCatch ?_ fun _ => prompt_of_calls (fail_unstarted _ _)
  refine Prog.maintains_bind (prompt_of_calls (calls_query trivial)) fun _ =>
    Prog.maintains_bind (prompt_of_calls (calls_query trivial)) fun run => ?_
  cases run with
  | none => exact prompt_of_calls (calls_query trivial)
  | some run =>
    refine Prog.maintains_bind (prompt_of_calls (Prog.calls_attempt
      (provisionNode_calls cfg run.1 trivial trivial unstarted_of_provisionOp))) fun out => ?_
    cases out with
    | error exc => exact prompt_of_calls (onProvisionError_unstarted cfg r exc)
    | ok node => exact markRunning_prompt r _ _

theorem unstarted_of_may {n : TaskName} (hn : ∀ r g, n ≠ .handleQueuedRun r g) (op : Op)
    (h : n.may cfg op) : Unstarted op := by
  unfold Unstarted
  split
  · cases n with
    | handleQueuedRun r g => exact hn r g rfl
    | request req => cases req <;> exact h
    | _ => exact h
  · trivial

theorem body_prompt (cfg : Config) (n : TaskName) :
    (n.body cfg).Follows prompt (fun _ _ => True) none := by
  suffices h : (n.body cfg).Maintains prompt fun _ => True from
    (h none trivial).mono fun _ _ _ => trivial
  by_cases hn : ∃ r g, n = .handleQueuedRun r g
  · obtain ⟨r, g, rfl⟩ := hn
    exact handleQueuedRun_prompt cfg r g
  · exact prompt_of_calls ((body_calls cfg n).mono (unstarted_of_may fun r g h => hn ⟨r, g, h⟩))

/-- The timestamp that the watchdog of the run's status reads is the one noted. -/
structure Noted (o : Notes) (run : Run) : Prop where
  claimed : run.status = .provisioning →
    ∃ t, o.claimed run.id = some t ∧ run.provisioningStartedAt = some t
  started : run.status = .running → ∃ t, o.started run.id = some t ∧ run.startedAt = some t

section
variable {p : System cfg} {i : Nat} {n : (orchestrator cfg).Name} {op : sig.Op}
  {next : sig.Resp op → Prog sig Exc Unit} {e : (orchestrator cfg).Env} {o : Notes} {x y : Run}

theorem claimTime_of_status {l : Step cfg} {q : System cfg} {t : Time}
    (h : claimTime r p l q = some t) : p.world.db.status r = some .queued ∧
      q.world.db.status r = some .provisioning := by
  unfold claimTime at h
  split at h
  · split at h
    · assumption
    · cases h
  · cases h

theorem startTime_eq_some {ran : Nat → Time} {s : Time}
    (ht : p.tasks[i]? = some ⟨n, .call op next⟩) (h : startTime ran r p (.run i e) = some s) :
    s = ran i ∧ e.fault ≠ .before ∧ ∃ t, op = Op.db (.setRunning r t) := by
  simp only [startTime, System.queries_run ht] at h
  split at h
  · rename_i r' t e' hq
    split at h
    · rename_i hs
      obtain ⟨rfl, hf, -⟩ := hs
      cases op <;> cases hq
      exact ⟨(Option.some.inj h).symm, hf, t, rfl⟩
    · cases h
  · cases h

theorem row_setRunning {t : Time} {next : sig.Resp (Op.db (.setRunning r t)) → Prog sig Exc Unit}
    (hf : e.fault ≠ .before) (hx : p.world.db.runs.get r = some x) :
    (p.after (M := orchestrator cfg) i n (Op.db (.setRunning r t)) next e).world.db.runs.get r =
      some { x with status := .running, startedAt := some t } := by
  obtain ⟨a, db', ho, hrow⟩ := get_onRun s!"Run with id {uuidStr r} not found"
    (fun run : Run => { run with status := .running, startedAt := some t }) (fun _ => rfl) hx
  have hdb : (p.after (M := orchestrator cfg) i n (Op.db (.setRunning r t)) next e).world.db =
    ((Query.setRunning r t).run e (p.world.clock + e.elapsed) p.world.db).2 := rfl
  rw [hdb, Query.run_commits (q := .setRunning r t) hf ho, hrow]

theorem Noted.after (hN : Noted o x) (ht : p.tasks[i]? = some ⟨n, .call op next⟩)
    {γ : Option Time} (hγ : Prompt γ op) (hran : ∀ t, γ = some t → o.ran i = t)
    (hx : p.world.db.runs.get r = some x)
    (hy : (p.after i n op next e).world.db.runs.get r = some y) :
    Noted (o.note p (.run i e) (p.after i n op next e)) y := by
  obtain rfl := Table.key_of_get hx
  cases hstart : startTime o.ran x.id p (.run i e) with
  | some s =>
    obtain ⟨rfl, hf, t, rfl⟩ := startTime_eq_some ht hstart
    cases (row_setRunning hf hx).symm.trans hy
    refine ⟨fun h => (by cases h), fun _ => ⟨t, ?_, rfl⟩⟩
    show (startTime o.ran x.id p (.run i e)).or _ = _
    rw [hstart, Option.some_or, hran t hγ]
  | none =>
    have hstarted :
        (o.note p (.run i e) (p.after i n op next e)).started x.id = o.started x.id := by
      show (startTime o.ran x.id p (.run i e)).or _ = _
      rw [hstart, Option.none_or]
    have hkept : y.status = x.status → y.provisioningStartedAt = x.provisioningStartedAt →
        y.startedAt = x.startedAt → y.id = x.id →
        Noted (o.note p (.run i e) (p.after i n op next e)) y := by
      intro hs hp hst hid
      -- a claim changes the status
      have hnone : claimTime x.id p (.run i e) (p.after i n op next e) = none := by
        refine Option.eq_none_iff_forall_ne_some.2 fun t hclaim => ?_
        obtain ⟨hqueued, hprov⟩ := claimTime_of_status hclaim
        have hbefore := Option.some.inj ((Db.status_of_get hx).symm.trans hqueued)
        have hafter := Option.some.inj ((Db.status_of_get hy).symm.trans hprov)
        cases hbefore.symm.trans (hs.symm.trans hafter)
      refine ⟨fun h => ?_, fun h => ?_⟩
      · obtain ⟨t, hc, ht⟩ := hN.claimed (hs ▸ h)
        refine ⟨t, ?_, hp.trans ht⟩
        show (claimTime y.id _ _ _).or _ = _
        rw [hid, hnone, Option.none_or, hc]
      · obtain ⟨t, hc, ht⟩ := hN.started (hs ▸ h)
        exact ⟨t, by rw [hid, hstarted, hc], hst.trans ht⟩
    rcases row_after p i e n op next hx with hsame | ⟨c, y', rfl, hf, hy', hw⟩
    · cases hsame.symm.trans hy
      exact hkept rfl rfl rfl rfl
    cases hy'.symm.trans hy
    cases hw with
    | claim hq =>
      refine ⟨fun _ => ⟨p.world.clock + e.elapsed, ?_, rfl⟩, fun h => (by cases h)⟩
      have hclaim : claimTime x.id p (.run i e) (p.after i n _ next e) =
          some (p.world.clock + e.elapsed) := by
        simp only [claimTime, System.queries_run ht]
        exact if_pos ⟨(Db.status_of_get hx).trans (congrArg some hq), Db.status_of_get hy⟩
      show (claimTime x.id _ _ _).or _ = _
      rw [hclaim, Option.some_or]
    | running =>
      simp [startTime, System.queries_run ht, hf, hx] at hstart
    | logs | phase | exhausted => exact hkept rfl rfl rfl rfl
    | _ => exact ⟨fun h => (by cases h), fun h => (by cases h)⟩

theorem noted_created (hreg : ∀ run, op = Op.db (.runCreate run) → run.status = .queued)
    (hx : p.world.db.runs.get r = none)
    (hy : (p.after i n op next e).world.db.runs.get r = some y) :
    Noted (o.note p (.run i e) (p.after i n op next e)) y := by
  cases op with
  | db c =>
    have hdb : (p.after i n (Op.db c) next e).world.db =
      ((c : Query).run e (p.world.clock + e.elapsed) p.world.db).2 := rfl
    rcases Query.run_db c e (p.world.clock + e.elapsed) p.world.db with he | ⟨a, htx⟩
    · rw [hdb, he, hx] at hy
      cases hy
    rw [hdb] at hy
    rcases Query.rowStep htx r with he | ⟨_, _, hx', -, -⟩ | ⟨run, rfl, -, -, hrun⟩
    · cases (he.symm.trans hy).symm.trans hx
    · cases hx.symm.trans hx'
    · cases hrun.symm.trans hy
      have hqueued := hreg _ rfl
      exact ⟨fun h => (by cases hqueued.symm.trans h), fun h => (by cases hqueued.symm.trans h)⟩
  | _ => cases hx.symm.trans hy

end

/-- Each task is about to set a run running only with the clock it has just read, and each row has
the timestamps noted. -/
structure Agrees (p : System cfg) (o : Notes) (g : Nat → Option Time) : Prop where
  tracked : Pool.Tracked prompt p g
  ran : ∀ i t, g i = some t → o.ran i = t
  rows : ∀ r run, p.world.db.runs.get r = some run → Noted o run

theorem agrees_step {w : World} {p q : System cfg} {l : Step cfg} {o : Notes}
    (hr : Pool.Reach (fun _ _ => True) (System.start cfg w) p)
    (h : ∃ g, Agrees p o g) (hs : p.step l = some q) : ∃ g, Agrees q (o.note p l q) g := by
  obtain ⟨g, hA⟩ := h
  rcases Pool.step_cases hs with
    ⟨i, e, n, op, next, rfl, ht, rfl⟩ | ⟨n, rfl, -, rfl⟩ | ⟨e, rfl, rfl⟩
  · refine ⟨_, Pool.TrackedTo.after hA.tracked (body_prompt cfg) e ht, fun j t hj => ?_,
      fun r y hy => ?_⟩
    · by_cases hji : j = i
      · subst hji
        rw [Pool.ghost_self] at hj
        cases op with
        | now =>
          cases hj
          exact Function.update_self ..
        | _ => cases hj
      -- the clocks of the others are noted as before
      · refine (Function.update_of_ne hji ..).trans (hA.ran j t ?_)
        rw [Pool.ghost, if_neg hji] at hj
        split at hj
        · -- a fresh task has read no clock
          cases hm : ((orchestrator cfg).handle i n op e p.world).2.2 with
          | none => rwa [hm] at hj
          | some m => rw [hm] at hj; cases hj
        · exact hj
    · cases hx : p.world.db.runs.get r with
      | some x => exact (hA.rows r x hx).after ht (hA.tracked i _ ht).1 (hA.ran i) hx hy
      | none =>
        refine noted_created (fun run hrun => ?_) hx hy
        subst hrun
        exact (System.regular_of_queries hr (System.queries_run (e := e) ht)).1
  · refine ⟨_, Pool.TrackedTo.arrive hA.tracked (body_prompt cfg) n, fun j t hj => ?_, hA.rows⟩
    by_cases hlen : j = p.tasks.length
    · subst hlen
      rw [Function.update_self] at hj
      cases hj
    · rw [Function.update_of_ne hlen] at hj
      exact hA.ran j t hj
  · exact ⟨_, Pool.Tracked.boot _ (body_prompt cfg), fun _ _ h => (by cases h), hA.rows⟩

theorem agrees_reach {w : World} {p : System cfg} {ls : List (Step cfg)}
    (hfresh : ∀ r run, w.db.runs.get r = some run → isLive run = false)
    (h : (System.start cfg w).exec ls = some p) :
    ∃ g, Agrees p ((System.start cfg w).observe Notes.note {} ls) g := by
  refine Pool.observe_invariant Notes.note (I := fun p o => ∃ g, Agrees p o g) h
    (Pool.obeys_true _ ls) ?_
    fun _ _ _ _ hr hA _ hs => agrees_step hr hA hs
  refine ⟨_, Pool.Tracked.boot _ (body_prompt cfg), nofun, fun r run hg => ?_⟩
  have hidle : ¬ (run.status = .provisioning ∨ run.status = .running) :=
    of_decide_eq_false (hfresh r run hg)
  exact ⟨fun hs => (hidle (.inl hs)).elim, fun hs => (hidle (.inr hs)).elim⟩

/-! ## The watchdogs -/

/-- A transaction fails exactly the runs in `who`, and returns them. -/
structure FailsExactly (who : RunId → Prop) (now : Time) (message : String) (ids : List RunId)
    (db db' : Db) : Prop where
  nodup : ids.Nodup
  mem : ∀ r, r ∈ ids ↔ who r
  failed : ∀ r run, who r → db.runs.get r = some run → db'.runs.get r = some
    { run with status := .failed, endedAt := some now, errorMessage := some message }
  kept : ∀ r, ¬ who r → db'.runs.get r = db.runs.get r
  others : db'.nodes = db.nodes ∧ db'.results = db.results

theorem failsExactly_modifyRuns {who : RunId → Prop} {timedOut : Run → Bool} {db : Db}
    (now : Time) (message : String)
    (hwho : ∀ r, who r ↔ ∃ run, db.runs.get r = some run ∧ timedOut run = true) :
    FailsExactly who now message ((db.runs.rows.filter timedOut).map Run.id) db
      (db.modifyRuns timedOut (fun run => { run with
        status := .failed, endedAt := some now, errorMessage := some message }) fun _ => rfl) where
  nodup := db.runs.nodup.sublist (List.filter_sublist.map Run.id)
  mem r := by
    rw [hwho]
    simp only [List.mem_map, List.mem_filter, Table.get_eq_some]
    constructor
    · rintro ⟨run, ⟨hm, hs⟩, rfl⟩
      exact ⟨run, ⟨hm, rfl⟩, hs⟩
    · rintro ⟨run, ⟨hm, rfl⟩, hs⟩
      exact ⟨run, ⟨hm, hs⟩, rfl⟩
  failed r run hr hg := by
    obtain ⟨run', hg', ht⟩ := (hwho r).1 hr
    cases hg'.symm.trans hg
    rw [Db.get_modifyRuns, hg]
    simp [ht]
  kept r hr := by
    rw [Db.get_modifyRuns]
    cases hg : db.runs.get r with
    | none => rfl
    | some run =>
      have ht : ¬ timedOut run = true := fun ht => hr ((hwho r).2 ⟨run, hg, ht⟩)
      simp [ht]
  others := ⟨rfl, rfl⟩

theorem Noted.provisioningTimedOut_iff {o : Notes} {run : Run} {cutoff : Time} (h : Noted o run) :
    provisioningTimedOut cutoff run = true ↔
      run.status = .provisioning ∧ ∃ t ∈ o.claimed run.id, t < cutoff := by
  rw [provisioningTimedOut, decide_eq_true_iff]
  refine and_congr_right fun hs => ?_
  obtain ⟨t, hnote, hrow⟩ := h.claimed hs
  simp [hnote, hrow]

theorem Noted.runningTimedOut_iff {o : Notes} {run : Run} {cutoff : Time} (h : Noted o run) :
    runningTimedOut cutoff run = true ↔
      run.status = .running ∧ ∃ t ∈ o.started run.id, t < cutoff := by
  rw [runningTimedOut, decide_eq_true_iff]
  refine and_congr_right fun hs => ?_
  obtain ⟨t, hnote, hrow⟩ := h.started hs
  simp [hnote, hrow]

theorem who_iff {db : Db} {o : Notes} {s : RunStatus} {notes : RunId → Option Time}
    {cutoff : Time} {timedOut : Run → Bool}
    (hrows : ∀ r run, db.runs.get r = some run → Noted o run)
    (hiff : ∀ run, Noted o run →
      (timedOut run = true ↔ run.status = s ∧ ∃ t ∈ notes run.id, t < cutoff)) :
    (db.status r = some s ∧ ∃ t ∈ notes r, t < cutoff) ↔
      ∃ run, db.runs.get r = some run ∧ timedOut run = true := by
  constructor
  · rintro ⟨hs, ht⟩
    obtain ⟨run, hg, hs'⟩ := Db.get_of_status hs
    rw [← Table.key_of_get hg] at ht
    exact ⟨run, hg, (hiff run (hrows r run hg)).2 ⟨hs', ht⟩⟩
  · rintro ⟨run, hg, ht⟩
    obtain ⟨hs, hnote⟩ := (hiff run (hrows r run hg)).1 ht
    rw [← Table.key_of_get hg]
    exact ⟨Table.key_of_get hg ▸ (Db.status_of_get hg).trans (congrArg some hs), hnote⟩

/-- In every execution from a database in which no run is live yet: each run in provisioning has
been claimed, and each running one has been set running; the watchdogs fail exactly those whose last
claim, or last `set_running`, came before the cutoff. -/
theorem watchdogs_exact {w : World} {p : System cfg} {ls : List (Step cfg)}
    (hfresh : ∀ r run, w.db.runs.get r = some run → isLive run = false)
    (h : (System.start cfg w).exec ls = some p) (cutoff now : Time) :
    let o := (System.start cfg w).observe Notes.note {} ls
    (∀ r, p.world.db.status r = some .provisioning → (o.claimed r).isSome) ∧
    (∀ r, p.world.db.status r = some .running → (o.started r).isSome) ∧
    (∃ ids db', claimProvisioningTimedOut cutoff now p.world.db = .ok (ids, db') ∧
      FailsExactly (fun r => p.world.db.status r = some .provisioning ∧
          ∃ t ∈ o.claimed r, t < cutoff)
        now "timeout: stuck in provisioning" ids p.world.db db') ∧
    ∃ runs db', claimRunningTimedOut cutoff now p.world.db = .ok (runs, db') ∧
      FailsExactly (fun r => p.world.db.status r = some .running ∧ ∃ t ∈ o.started r, t < cutoff)
        now "timeout: claimed by reaper" (runs.map Prod.fst) p.world.db db' := by
  intro o
  obtain ⟨g, hA⟩ := agrees_reach hfresh h
  refine ⟨fun r hs => ?_, fun r hs => ?_, ⟨_, _, rfl, failsExactly_modifyRuns _ _ fun r => ?_⟩,
    _, _, rfl, ?_⟩
  · obtain ⟨run, hg, hs'⟩ := Db.get_of_status hs
    obtain ⟨t, ht, -⟩ := (hA.rows _ run hg).claimed hs'
    rw [← Table.key_of_get hg, ht]
    rfl
  · obtain ⟨run, hg, hs'⟩ := Db.get_of_status hs
    obtain ⟨t, ht, -⟩ := (hA.rows _ run hg).started hs'
    rw [← Table.key_of_get hg, ht]
    rfl
  · exact who_iff hA.rows fun _ hN => hN.provisioningTimedOut_iff
  · rw [List.map_map]
    exact failsExactly_modifyRuns _ _ fun r => who_iff hA.rows fun _ hN => hN.runningTimedOut_iff

/-- The run is claimed, set back into the queue, and claimed again after a hundred microseconds. -/
def Sample.waited : List (Step Sample.config) :=
  Sample.setBack ++ Sample.steps 2 1 ++ .run 1 { elapsed := 100 } :: Sample.steps 1 7 ++
    Sample.steps 3 4

theorem watchdogs_exact_of_waited :
    let p := Sample.oneQueued.play Sample.waited
    (∃ ids db', claimProvisioningTimedOut 100 200 p.world.db = .ok (ids, db') ∧ 7 ∉ ids) ∧
      ∃ ids db', claimProvisioningTimedOut 101 200 p.world.db = .ok (ids, db') ∧ 7 ∈ ids := by
  intro p
  have hfresh : ∀ r run, Sample.oneQueued.world.db.runs.get r = some run → isLive run = false := by
    intro r run hg
    have hm : run ∈ [Sample.waitingRun] := (Table.get_eq_some.1 hg).1
    cases List.mem_singleton.1 hm
    rfl
  have hexact := fun cutoff => watchdogs_exact hfresh
    (Pool.exec_play Sample.oneQueued Sample.waited (by decide)) cutoff 200
  obtain ⟨-, -, ⟨ids, db, htx, hids⟩, -⟩ := hexact 100
  obtain ⟨-, -, ⟨ids', db', htx', hids'⟩, -⟩ := hexact 101
  exact ⟨⟨ids, db, htx, fun hm => absurd ((hids.mem 7).1 hm).2 (by decide)⟩,
    ids', db', htx', (hids'.mem 7).2 (by decide)⟩

end GrillPlatform
