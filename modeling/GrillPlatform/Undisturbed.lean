import GrillPlatform.Published
import GrillPlatform.Stakes

/-! Undisturbed executions. No task takes a run away from another that is in the middle of something
with it. There the guards hold until the writes they are for, and the lifecycle is kept. -/

namespace GrillPlatform
open Coroutine RunRepository
variable {cfg : Config}

/-- The status a call is about to give run `r`. -/
def Query.writes (db : Db) (r : RunId) : Query → Option RunStatus
  | .completeRun r' _ result =>
    if r' = r ∧ db.results.get result.runId = none then some .done else none
  | .failRun r' _ | .setFailed r' .. => if r' = r then some .failed else none
  | .setRunning r' _ => if r' = r then some .running else none
  | .requeueForRetry r' m =>
    if r' = r ∧ ∀ run ∈ db.runs.get r, ¬ m ≤ run.provisionAttempts + 1 then some .queued else none
  | .claimRunningTimedOut cutoff =>
    if (db.runs.get r).any (runningTimedOut cutoff) then some .failed else none
  | .claimProvisioningTimedOut cutoff =>
    if (db.runs.get r).any (provisioningTimedOut cutoff) then some .failed else none
  | _ => none

/-- Every other task that is at work on a run reckons with the status the call gives it. -/
def Respects (p : System cfg) (g : Nat → Stake) (i : Nat) (c : Query) : Prop :=
  ∀ j < p.tasks.length, j ≠ i → ¬ p.Ended j →
    ∀ r ∈ (g j).runs, ∀ s ∈ c.writes p.world.db r, s ∈ (g j).window.lets

instance Respects.decidable (p : System cfg) (g : Nat → Stake) (i : Nat) (c : Query) :
    Decidable (Respects p g i c) :=
  have (j : Nat) : Decidable (∀ r ∈ (g j).runs,
      ∀ s ∈ c.writes p.world.db r, s ∈ (g j).window.lets) := List.decidableBAll ..
  inferInstanceAs (Decidable (∀ j < p.tasks.length, j ≠ i → ¬ p.Ended j → _))

/-- A task knows of its requeue, and fails no run that it has handed back. -/
def Stake.keeps (γ : Stake) (fault : Fault) : Query → Prop
  | .requeueForRetry .. => fault ≠ .after
  | .setFailed r .. => r ∈ γ.runs ∨ r ∈ γ.reaped
  | _ => True

instance Stake.decidableKeeps (γ : Stake) (fault : Fault) : (c : Query) → Decidable (γ.keeps fault c)
  | .requeueForRetry .. => inferInstanceAs (Decidable (fault ≠ .after))
  | .setFailed r .. => inferInstanceAs (Decidable (r ∈ γ.runs ∨ r ∈ γ.reaped))
  | .completeRun .. | .failRun .. | .setRunning ..
  | .runGet _ | .claimQueued .. | .countLiveByType | .hasActiveRun .. | .runCreate _
  | .setLogsUrl .. | .setPhase .. | .claimRunningTimedOut _ | .getOrphanedProvisioning
  | .claimProvisioningTimedOut _ | .nodeGet _ | .nodeCreate _ | .nodeSave _
  | .createProvisioning .. | .setBusy .. | .getLeaked | .setDownByRun _ => isTrue trivial

/-- A repository call of the step that takes effect spares the other tasks. -/
def Undisturbed (p : System cfg) (g : Nat → Stake) : Step cfg → Prop
  | .run i e => ∀ c ∈ p.queries (.run i e), e.fault = .before ∨
      Respects p g i c.1 ∧ (g i).keeps e.fault c.1
  | _ => True

instance Undisturbed.decidable (p : System cfg) (g : Nat → Stake) :
    (l : Step cfg) → Decidable (Undisturbed p g l)
  | .run i e =>
    inferInstanceAs (Decidable (∀ c ∈ p.queries (.run i e), e.fault = .before ∨
      Respects p g i c.1 ∧ (g i).keeps e.fault c.1))
  | .arrive _ | .crash _ => isTrue trivial

section
variable {q : Query} {pick : List RunId} {now : Time} {db db' : Db} {a : q.Resp} {r : RunId}

theorem RowWrite.writes {run run' : Run} (h : RowWrite now q run run')
    (hg : db.runs.get run.id = some run)
    (hfresh : ∀ r url result, q = .completeRun r url result → db.results.get result.runId = none) :
    run'.status = run.status ∨ q.writes db run.id = some run'.status ∨ run.status = .queued := by
  cases h with
  | claim hq => exact .inr (.inr hq)
  | complete => exact .inr (.inl (if_pos ⟨rfl, hfresh _ _ _ rfl⟩))
  | fail | failed | running => exact .inr (.inl (if_pos rfl))
  | logs | phase | exhausted => exact .inl rfl
  | reapRunning hc | reapProvisioning hc =>
    refine .inr (.inl (if_pos ?_))
    rw [hg]
    exact hc
  | requeue hm =>
    refine .inr (.inl (if_pos ⟨rfl, fun x hx => ?_⟩))
    cases hg.symm.trans hx
    exact hm

theorem Query.writes_of_tx (h : q.tx pick now db = .ok (a, db')) {s : RunStatus}
    (hs : db.status r = some s) :
    ∃ s', db'.status r = some s' ∧ (s' = s ∨ q.writes db r = some s' ∨ s = .queued) := by
  obtain ⟨run, hg, rfl⟩ := Db.get_of_status hs
  rcases q.rowStep h r with he | ⟨x, y, hx, hy, hw⟩ | ⟨_, _, _, hx, _⟩
  · exact ⟨run.status, Db.status_of_get (he.trans hg), .inl rfl⟩
  · cases hx.symm.trans hg
    obtain rfl := Table.key_of_get hg
    refine ⟨y.status, Db.status_of_get hy, hw.writes hg ?_⟩
    rintro r url result rfl
    exact completeRun_fresh h
  · cases hx.symm.trans hg

theorem Query.writes_done (h : q.writes db r = some .done) :
    ∃ url result, q = .completeRun r url result := by
  cases q with
  | completeRun r' url result =>
    obtain ⟨⟨rfl, -⟩, -⟩ := Option.ite_none_right_eq_some.1 h
    exact ⟨url, result, rfl⟩
  | failRun | setFailed | setRunning | requeueForRetry | claimRunningTimedOut
  | claimProvisioningTimedOut => cases (Option.ite_none_right_eq_some.1 h).2
  | _ => cases h

theorem Query.results_kept (h : q.tx pick now db = .ok (a, db'))
    (hr : (db.results.get r).isSome) : (db'.results.get r).isSome := by
  rcases q.resultStep h with he | ⟨_, _, result, -, hi, -⟩
  · rwa [he]
  · rw [Table.get_insert hi]
    split
    · rfl
    · exact hr

end

/-- What a stake says of the database: its runs are in a status the task reckons with, a run that is
done has its result, and a run claimed as timed out is failed. -/
structure Stake.Stands (db : Db) (γ : Stake) : Prop where
  runs : ∀ r ∈ γ.runs, ∃ s, db.status r = some s ∧ s ∈ γ.window.lets ∧
    (s = .done → (db.results.get r).isSome)
  reaped : ∀ r ∈ γ.reaped, db.status r = some .failed

namespace Stake.Stands
variable {q : Query} {e : Env} {now : Time} {db : Db} {γ : Stake} {r : RunId}

theorem drop (h : γ.Stands db) (r : RunId) : (γ.drop r).Stands db :=
  ⟨fun r' hr' => h.runs r' (List.mem_of_mem_filter hr'), h.reaped⟩

theorem late (h : γ.Stands db) (hγ : γ.window ≠ .complete) : γ.late.Stands db := by
  refine ⟨fun r hr => ?_, h.reaped⟩
  obtain ⟨s, hs, hlets, hdone⟩ := h.runs r hr
  refine ⟨s, hs, ?_, hdone⟩
  show s ∈ Window.lets .giveUp
  revert hlets
  cases hw : γ.window with
  | complete => exact absurd hw hγ
  | provision | giveUp => cases s <;> simp [Window.lets]

theorem onTime (h : γ.Stands db) (hpre : γ.allows (.db q)) (hk : γ.keeps e.fault q) :
    q.onTime db := by
  have hlets : ∀ r ∈ γ.runs, ∀ s ∈ db.status r, s ∈ γ.window.lets := by
    intro r hr s hs
    obtain ⟨s', hs', hlets, -⟩ := h.runs r hr
    cases hs.symm.trans hs'
    exact hlets
  cases q with
  | completeRun r url result =>
    obtain ⟨hγ, hr, hid⟩ := hpre
    intro s hs
    obtain ⟨s', hs', hlets, hdone⟩ := h.runs r hr
    cases hs.symm.trans hs'
    rw [hγ] at hlets
    exact .inl hlets
  | failRun r msg =>
    intro s hs
    have hs := hlets r hpre.2 s hs
    rwa [hpre.1] at hs
  | setRunning r t =>
    intro s hs
    have hs := hlets r hpre.2 s hs
    rw [hpre.1, Window.lets, List.mem_singleton] at hs
    exact List.mem_cons.2 (.inl hs)
  | requeueForRetry r m =>
    intro run hg
    have hs := hlets r hpre.2 _ (Db.status_of_get hg)
    rw [hpre.1, Window.lets, List.mem_singleton] at hs
    exact .inr (List.mem_cons.2 (.inl hs))
  | setFailed r t msg =>
    intro s hs
    rcases hk with hr | hr
    · obtain ⟨s', hs', hlets, -⟩ := (h.late hpre).runs r hr
      cases hs.symm.trans hs'
      exact hlets
    · cases hs.symm.trans (h.reaped r hr)
      simp
  | _ => trivial

theorem run (h : γ.Stands db) (hreg : ∀ r url result, q = .completeRun r url result →
      result.runId = r) (htime : e.fault ≠ .before → q.onTime db)
    (hw : e.fault ≠ .before → ∀ r ∈ γ.runs, ∀ s ∈ q.writes db r, s ∈ γ.window.lets) :
    γ.Stands (q.run e now db).2 := by
  by_cases hf : e.fault = .before
  · rwa [Query.run_before hf]
  rcases q.run_db e now db with he | ⟨a, ha⟩
  · rwa [he]
  have hlaw := lawful_of_onTime ha (htime hf)
  refine ⟨fun r hr => ?_, fun r hr => ?_⟩
  · obtain ⟨s, hs, hlets, hdone⟩ := h.runs r hr
    obtain ⟨s', hs', hcase⟩ := Query.writes_of_tx ha hs
    refine ⟨s', hs', ?_⟩
    rcases hcase with rfl | hwr | rfl
    · exact ⟨hlets, fun hd => Query.results_kept ha (hdone hd)⟩
    · refine ⟨hw hf r hr s' hwr, ?_⟩
      rintro rfl
      obtain ⟨url, result, rfl⟩ := Query.writes_done hwr
      rw [Table.get_insert (completeRun_ok ha).2, if_pos (hreg _ _ _ rfl)]
      rfl
    · revert hlets
      cases γ.window <;> simp [Window.lets]
  · obtain ⟨s', hs', -⟩ := Query.writes_of_tx ha (h.reaped r hr)
    rcases hlaw r _ _ (h.reaped r hr) hs' with rfl | hedge
    · exact hs'
    · exact absurd hedge (RunStatus.final.no_edge (.inr rfl))

theorem opened_of_get {pick : List RunId} {db' : Db} {run : RunOf r}
    (h : (Query.runGet r).tx pick now db = .ok (some run, db')) {w : Window}
    (hopen : run.1.status ∈ w.opens) : ∃ s, db'.status r = some s ∧ s ∈ w.lets ∧
      (s = .done → (db'.results.get r).isSome) := by
  cases hg : db.runs.get r with
  | none => cases (get_of_none hg).symm.trans h
  | some x =>
    cases (get_of_get hg).symm.trans h
    have hlets : x.status ∈ w.lets ∧ x.status ≠ .done := by
      revert hopen
      cases w <;> cases x.status <;> simp [Window.opens, Window.lets]
    exact ⟨x.status, Db.status_of_get hg, hlets.1, fun hd => absurd hd hlets.2⟩

theorem failed_of_claim {pick : List RunId} {db' : Db} {cutoff : Time}
    {stuck : List (RunId × Option String)}
    (h : (Query.claimRunningTimedOut cutoff).tx pick now db = .ok (stuck, db'))
    (hr : r ∈ stuck.map Prod.fst) : db'.status r = some .failed := by
  cases h
  obtain ⟨s, hs, rfl⟩ := List.mem_map.1 hr
  obtain ⟨run, hrun, rfl⟩ := List.mem_map.1 hs
  obtain ⟨hmem, hp⟩ := List.mem_filter.1 hrun
  rw [Db.status, Db.get_modifyRuns, Table.get_eq_some.2 ⟨hmem, rfl⟩]
  simp [hp]

/-- A writer that has answered has no stake in its run any more. -/
theorem drop_run (h : γ.Stands db)
    (hreg : ∀ r url result, q = .completeRun r url result → result.runId = r)
    (htime : e.fault ≠ .before → q.onTime db)
    (hr : ∀ r' s, q.writes db r' = some s → r = r') : (γ.drop r).Stands (q.run e now db).2 := by
  refine (h.drop r).run hreg htime fun _ r' hr' s hs => ?_
  obtain rfl := hr r' s hs
  simp [Stake.drop] at hr'

/-- One that has raised may have written the status, which the task has to reckon with. -/
theorem keep_run {s : RunStatus} (h : γ.Stands db)
    (hreg : ∀ r url result, q = .completeRun r url result → result.runId = r)
    (htime : e.fault ≠ .before → q.onTime db) (hs : s ∈ γ.window.lets)
    (hw : ∀ r s', q.writes db r = some s' → s = s') : γ.Stands (q.run e now db).2 :=
  h.run hreg htime fun _ r _ s' hs' => hw r s' hs' ▸ hs

theorem writes_ite {c : Prop} [Decidable c] {x s : RunStatus}
    (h : (if c then some x else none) = some s) : c ∧ x = s :=
  (Option.ite_none_right_eq_some.1 h).imp_right Option.some.inj

theorem after_requeue {m : Int} (h : γ.Stands db)
    (hpre : γ.allows (.db (.requeueForRetry r m)))
    (htime : e.fault ≠ .before → (Query.requeueForRetry r m).onTime db)
    (hk : e.fault ≠ .before → γ.keeps e.fault (.requeueForRetry r m)) :
    (γ.after (.db (.requeueForRetry r m)) ((Query.requeueForRetry r m).run e now db).1).Stands
      ((Query.requeueForRetry r m).run e now db).2 := by
  have hlate := h.late (by rw [hpre.1]; exact Window.noConfusion)
  cases ha : ((Query.requeueForRetry r m).run e now db).1 with
  | ok answer =>
    cases answer with
    | some k => exact h.drop_run nofun htime fun _ _ hs => (writes_ite hs).1.1
    | none =>
      -- the attempts are exhausted, so that nothing is written
      refine hlate.run nofun htime fun _ _ _ s hs => ?_
      obtain ⟨⟨rfl, hm⟩, -⟩ := writes_ite hs
      obtain ⟨s, hs, -⟩ := h.runs r hpre.2
      obtain ⟨run, hg, -⟩ := Db.get_of_status hs
      obtain ⟨a, db', htx, -, hnone⟩ := requeueForRetry_of_get (m := m) hg
      cases htx.symm.trans (Query.run_ok ha)
      exact absurd (hnone.1 rfl) (hm run hg)
  | error x =>
    -- nothing has been committed
    by_cases hf : e.fault = .before
    · rw [Query.run_before hf]
      exact hlate
    cases htx : (Query.requeueForRetry r m).tx e.pick now db with
    | error y =>
      rw [Query.run_raises htx]
      exact hlate
    | ok b =>
      have hne := hk hf
      rw [Query.run, Env.guard, htx] at ha
      cases hfault : e.fault with
      | before => exact absurd hfault hf
      | after => exact absurd hfault hne
      | none => rw [hfault] at ha; cases ha

theorem after_get (h : γ.Stands db) :
    (γ.after (.db (.runGet r)) ((Query.runGet r).run e now db).1).Stands
      ((Query.runGet r).run e now db).2 := by
  have hsame : γ.Stands ((Query.runGet r).run e now db).2 :=
    h.run nofun (fun _ => trivial) fun _ _ _ _ hs => by cases hs
  cases ha : ((Query.runGet r).run e now db).1 with
  | error x => exact hsame
  | ok answer =>
    cases answer with
    | none => exact hsame
    | some run =>
      show (if run.1.status ∈ γ.window.opens then _ else γ : Stake).Stands _
      split
      · rename_i hopen
        exact ⟨List.forall_mem_cons.2 ⟨opened_of_get (Query.run_ok ha) hopen, hsame.runs⟩,
          hsame.reaped⟩
      · exact hsame

/-- The runs that a call hands to an attempt or a recovery are in provisioning. -/
theorem taken {rs : List RunId} (h : γ.Stands db) (hγ : γ.window = .provision)
    (hrs : ∀ r ∈ rs, db.status r = some .provisioning) :
    Stands db { γ with runs := rs ++ γ.runs } := by
  refine ⟨List.forall_mem_append.2 ⟨fun r hr => ?_, h.runs⟩, h.reaped⟩
  refine ⟨.provisioning, hrs r hr, ?_, RunStatus.noConfusion⟩
  show RunStatus.provisioning ∈ γ.window.lets
  rw [hγ]
  decide

theorem after_claimQueued {g : GpuType} {limit : Int} (h : γ.Stands db)
    (hγ : γ.window = .provision) :
    (γ.after (.db (.claimQueued g limit)) ((Query.claimQueued g limit).run e now db).1).Stands
      ((Query.claimQueued g limit).run e now db).2 := by
  have hsame : γ.Stands ((Query.claimQueued g limit).run e now db).2 :=
    h.run nofun (fun _ => trivial) fun _ _ _ _ hs => by cases hs
  cases ha : ((Query.claimQueued g limit).run e now db).1 with
  | error x => exact hsame
  | ok claimed =>
    refine hsame.taken hγ fun r hr => ?_
    obtain ⟨run, -, -, -, hg⟩ := (claimQueued_ok (Query.run_ok ha)).2.2 r hr
    exact Db.status_of_get hg

theorem after_orphaned (h : γ.Stands db) (hγ : γ.window = .provision) :
    (γ.after (.db .getOrphanedProvisioning) (Query.getOrphanedProvisioning.run e now db).1).Stands
      (Query.getOrphanedProvisioning.run e now db).2 := by
  have hsame : γ.Stands (Query.getOrphanedProvisioning.run e now db).2 :=
    h.run nofun (fun _ => trivial) fun _ _ _ _ hs => by cases hs
  cases ha : (Query.getOrphanedProvisioning.run e now db).1 with
  | error x => exact hsame
  | ok rs =>
    refine hsame.taken hγ fun r hr => ?_
    obtain ⟨hrs, hdb⟩ := Prod.mk.inj (Except.ok.inj (Query.run_ok ha))
    rw [← hrs] at hr
    obtain ⟨run, hg, hs⟩ := mem_orphaned.1 hr
    rw [← hdb]
    exact hs ▸ Db.status_of_get hg

theorem after_reaped {cutoff : Time} (h : γ.Stands db) (hγ : γ.runs = []) :
    (γ.after (.db (.claimRunningTimedOut cutoff))
      ((Query.claimRunningTimedOut cutoff).run e now db).1).Stands
      ((Query.claimRunningTimedOut cutoff).run e now db).2 := by
  have hsame : γ.Stands ((Query.claimRunningTimedOut cutoff).run e now db).2 := by
    refine h.run nofun (fun _ => trivial) fun _ r hr => ?_
    rw [hγ] at hr
    cases hr
  cases ha : ((Query.claimRunningTimedOut cutoff).run e now db).1 with
  | error x => exact hsame
  | ok stuck =>
    exact ⟨hsame.runs, List.forall_mem_append.2
      ⟨fun r hr => failed_of_claim (Query.run_ok ha) hr, hsame.reaped⟩⟩

/-- The caller's own stake after its call. -/
theorem after (h : γ.Stands db) (hpre : γ.allows (.db q)) (htime : e.fault ≠ .before → q.onTime db)
    (hk : e.fault ≠ .before → γ.keeps e.fault q) :
    (γ.after (.db q) (q.run e now db).1).Stands (q.run e now db).2 := by
  have hreg : ∀ r url result, q = .completeRun r url result → result.runId = r := by
    rintro r url result rfl
    exact hpre.2.2
  cases q with
  | completeRun r url result =>
    cases ha : ((Query.completeRun r url result).run e now db).1 with
    | ok a => exact h.drop_run hreg htime fun _ _ hs => (writes_ite hs).1.1
    | error x =>
      have hlets : RunStatus.done ∈ γ.window.lets := by
        rw [hpre.1]
        decide
      exact h.keep_run hreg htime hlets fun _ _ hs => (writes_ite hs).2
  | failRun r msg =>
    cases ha : ((Query.failRun r msg).run e now db).1 with
    | ok a => exact h.drop_run hreg htime fun _ _ hs => (writes_ite hs).1
    | error x =>
      have hlets : RunStatus.failed ∈ γ.window.lets := by
        rw [hpre.1]
        decide
      exact h.keep_run hreg htime hlets fun _ _ hs => (writes_ite hs).2
  | setRunning r t =>
    have hgiveUp : RunStatus.running ∈ γ.late.window.lets := by
      show RunStatus.running ∈ Window.lets .giveUp
      decide
    have hγ : γ.window ≠ .complete := by
      rw [hpre.1]
      exact Window.noConfusion
    cases ha : ((Query.setRunning r t).run e now db).1 with
    | ok a => exact h.drop_run hreg htime fun _ _ hs => (writes_ite hs).1
    | error x => exact (h.late hγ).keep_run hreg htime hgiveUp fun _ _ hs => (writes_ite hs).2
  | setFailed r t msg =>
    have hgiveUp : RunStatus.failed ∈ γ.late.window.lets := by
      show RunStatus.failed ∈ Window.lets .giveUp
      decide
    cases ha : ((Query.setFailed r t msg).run e now db).1 with
    | ok a => exact h.drop_run hreg htime fun _ _ hs => (writes_ite hs).1
    | error x => exact (h.late hpre).keep_run hreg htime hgiveUp fun _ _ hs => (writes_ite hs).2
  | requeueForRetry r m => exact h.after_requeue hpre htime hk
  | runGet r => exact h.after_get
  | claimQueued g limit => exact h.after_claimQueued hpre
  | getOrphanedProvisioning => exact h.after_orphaned hpre
  | claimRunningTimedOut cutoff => exact h.after_reaped hpre
  | claimProvisioningTimedOut cutoff =>
    refine h.run hreg htime fun _ r hr => ?_
    rw [show γ.runs = [] from hpre] at hr
    cases hr
  | _ => exact h.run hreg htime fun _ _ _ _ hs => by cases hs

theorem sub {γ' : Stake} (h : γ.Stands db) (hr : γ'.runs ⊆ γ.runs)
    (hγ : γ'.runs = [] ∨ γ'.window = γ.window) (ha : γ'.reaped ⊆ γ.reaped) : γ'.Stands db := by
  refine ⟨fun r hr' => ?_, fun r hr' => h.reaped r (ha hr')⟩
  rcases hγ with hγ | hγ
  · rw [hγ] at hr'
    cases hr'
  · rw [hγ]
    exact h.runs r (hr hr')

end Stake.Stands

theorem TaskName.window_stake (n : TaskName) : n.stake.runs = [] ∨ n.stake.window = .provision := by
  cases n with
  | request req => cases req <;> exact .inl rfl
  | handleQueuedRun | recoverOrphanedProvisioningRun => exact .inr rfl
  | _ => exact .inl rfl

/-- The stakes of the tasks that have not ended stand. -/
def Founded (p : System cfg) (g : Nat → Stake) : Prop :=
  ∀ i t, p.tasks[i]? = some t → ¬ t.prog.Ended → (g i).Stands p.world.db

section
variable {p : System cfg} {g : Nat → Stake} {i : Nat} {n : (orchestrator cfg).Name} {op : sig.Op}
  {next : sig.Resp op → Prog sig Exc Unit} {e : (orchestrator cfg).Env}

theorem onTime_of_undisturbed (hJ : Founded p g) (hi : p.tasks[i]? = some ⟨n, .call op next⟩)
    (hpre : (g i).allows op) (hc : Undisturbed p g (.run i e)) : OnTime p (.run i e) := by
  rintro ⟨c, e'⟩ hq
  rw [System.queries_run hi] at hq
  cases op with
  | db q =>
    cases hq
    refine (hc _ (System.queries_run hi)).imp_right fun hc => ?_
    exact (hJ i _ hi id).onTime hpre hc.2
  | _ => cases hq

theorem founded_after (hJ : Founded p g) (hi : p.tasks[i]? = some ⟨n, .call op next⟩)
    (hpre : (g i).allows op) (hc : Undisturbed p g (.run i e)) :
    Founded (p.after i n op next e) (Pool.ghost staking TaskName.stake g i op
      ((orchestrator cfg).handle i n op e p.world).1 p.tasks.length
      ((orchestrator cfg).handle i n op e p.world).2.2) := by
  have hown := hJ i _ hi id
  intro j t hj ht
  rcases Pool.getElem?_after hj with ⟨rfl, rfl⟩ | ⟨hne, hj'⟩ | ⟨rfl, m, hm, rfl⟩
  · rw [Pool.ghost_self]
    cases op with
    | db q =>
      exact hown.after hpre (fun hf => hown.onTime hpre ((hc _ (System.queries_run hi)).resolve_left
        hf).2) fun hf => ((hc _ (System.queries_run hi)).resolve_left hf).2
    | createTask m => exact hown.sub (List.diff_subset ..) (.inr rfl) (List.Subset.refl _)
    | _ => exact hown
  · rw [Pool.ghost_other hne (Nat.ne_of_lt (Pool.lt_of_getElem? hj'))]
    have hother := hJ j t hj' ht
    cases op with
    | db q =>
      refine hother.run ?_ (fun hf => hown.onTime hpre ((hc _ (System.queries_run hi)).resolve_left
        hf).2) fun hf => ?_
      · rintro r url result rfl
        exact hpre.2.2
      · exact ((hc _ (System.queries_run hi)).resolve_left hf).1 j (Pool.lt_of_getElem? hj') hne
          (Pool.not_ended hj' ht)
    | _ => exact hother
  · rw [hm, Pool.ghost_new (Pool.lt_of_getElem? hi)]
    cases op with
    | createTask m' =>
      cases hm
      obtain ⟨hruns, hγ, hreaped⟩ := hpre
      refine hown.sub hruns ?_ hreaped
      rcases m.window_stake with hw | hw
      · exact .inl hw
      · exact hγ.imp_right fun h => hw.trans h.symm
    | _ => cases hm

end

theorem founded_boot (w : World) :
    Founded (Pool.boot w : System cfg) (stakes cfg).boot := by
  intro i t hi _
  exact ⟨fun _ hr => (List.not_mem_nil hr).elim, fun _ hr => (List.not_mem_nil hr).elim⟩

theorem founded_of_reach {w : World} {p : System cfg} {g : Nat → Stake}
    (h : Pool.ReachWith (stakes cfg) Undisturbed (System.start cfg w) (stakes cfg).boot p g) :
    Founded p g := by
  refine h.invariant (J := Founded) (Pool.TrackedTo.boot _ (stakes cfg).follows) (founded_boot _)
    (fun p g i e n op next _ hJ hi hpre hc => founded_after hJ hi hpre hc) (fun p g n hJ hn _ => ?_)
    fun p g e _ _ => founded_boot _
  intro j t hj ht
  rcases Pool.getElem?_arrive hj with hj | ⟨rfl, rfl⟩
  · rw [Function.update_of_ne (Nat.ne_of_lt (Pool.lt_of_getElem? hj))]
    exact hJ j t hj ht
  · rw [Function.update_self]
    -- only requests arrive, and they start without a stake
    cases n with
    | request req =>
      cases req <;> exact ⟨fun _ hr => (List.not_mem_nil hr).elim,
        fun _ hr => (List.not_mem_nil hr).elim⟩
    | _ => cases hn

theorem onTime_of_reach {w : World} {p : System cfg} {g : Nat → Stake} {l : Step cfg}
    (h : Pool.ReachWith (stakes cfg) Undisturbed (System.start cfg w) (stakes cfg).boot p g)
    (hc : Undisturbed p g l) : OnTime p l := by
  have ht := h.tracked (Pool.TrackedTo.boot _ (stakes cfg).follows)
  intro c hq
  obtain ⟨i, n, next, rfl, hi⟩ := System.call_of_queries hq
  exact onTime_of_undisturbed (founded_of_reach h) hi (ht i _ hi).1 hc c hq

theorem reach_onTime {w : World} {p q : System cfg} {g g' : Nat → Stake}
    (h : Pool.ReachWith (stakes cfg) Undisturbed (System.start cfg w) (stakes cfg).boot p g)
    (h' : Pool.ReachWith (stakes cfg) Undisturbed p g q g') : Pool.Reach OnTime p q := by
  induction h' with
  | init => exact .init
  | step l h' hc hs ih => exact ih.step l (onTime_of_reach (h.trans h') hc) hs

theorem Query.keepsFinal_of_onTime {c : Query} {db : Db} (h : c.onTime db) : c.keepsFinal db := by
  cases c with
  | completeRun r url result =>
    by_cases hs : db.status r = some .failed
    · exact .inr ((h _ hs).resolve_left (by decide))
    · exact .inl hs
  | failRun r msg | setFailed r t msg =>
    intro hs
    exact absurd (h _ hs) (by decide)
  | setRunning r t =>
    refine ⟨fun hs => ?_, fun hs => ?_⟩ <;> exact absurd (h _ hs) (by decide)
  | requeueForRetry r m =>
    intro run hg
    refine (h run hg).imp_right fun hs => ?_
    revert hs
    cases run.status <;> decide
  | _ => trivial

/-- In an undisturbed execution every change of a status is an edge of the lifecycle, and a run that
is done or failed stays so. -/
theorem lifecycle_of_undisturbed {w : World} {p : System cfg} {g : Nat → Stake}
    (h : Pool.ReachWith (stakes cfg) Undisturbed (System.start cfg w) (stakes cfg).boot p g) :
    (∀ l q, Undisturbed p g l → p.step l = some q → Lawful p.world.db q.world.db) ∧
    ∀ q g', Pool.ReachWith (stakes cfg) Undisturbed p g q g' → ∀ r s, s.final →
      p.world.db.status r = some s → q.world.db.status r = some s := by
  refine ⟨fun l q hc hs => (lawful_step_iff hs).2 (onTime_of_reach h hc), ?_⟩
  exact fun q g' h' r s hf hs => final_absorbing (reach_onTime h h') hf hs

/-- In an undisturbed execution no step changes the status of a run that is done or failed. -/
theorem reach_finalKept {w : World} {p : System cfg} {g : Nat → Stake}
    (h : Pool.ReachWith (stakes cfg) Undisturbed (System.start cfg w) (stakes cfg).boot p g) :
    Pool.Reach FinalKept (System.start cfg w) p := by
  exact (reach_onTime .init h).mono fun p l hc c hq =>
    (hc c hq).imp_right Query.keepsFinal_of_onTime

namespace Sample

/-- The table of results refuses the second, and the guard a failure that is POSTed then (task 8). -/
def refused : List (Step config) :=
  steps 6 3 ++ .arrive (.request (.fail 7 "lost")) :: steps 8 1

end Sample

open Sample in
theorem lifecycle_of_postedTwice :
    let p := start.play postedTwice
    let q := start.play (postedTwice ++ refused)
    p.world.db.status 7 = some .done ∧ ¬ p.Ended 6 ∧ q.Ended 6 ∧ q.Ended 8 ∧
      q.world.db.status 7 = some .done := by
  have hp : start.exec postedTwice = some (start.play postedTwice) :=
    Pool.exec_play _ _ (by decide +kernel)
  have hq : start.exec (postedTwice ++ refused) = some (start.play (postedTwice ++ refused)) :=
    Pool.exec_play _ _ (by decide +kernel)
  have hobeys : start.ObeysWith (stakes config) Undisturbed (stakes config).boot
      (postedTwice ++ refused) := by decide +kernel
  obtain ⟨g, hg, hrest⟩ := Pool.reachWith_of_obeys hp hobeys
  rw [Pool.exec_append, hp] at hq
  obtain ⟨g', hg'⟩ := hrest.reachWith hq
  have hdone : (start.play postedTwice).world.db.status 7 = some .done := by decide +kernel
  exact ⟨hdone, by decide +kernel, by decide +kernel, by decide +kernel,
    (lifecycle_of_undisturbed hg).2 _ _ hg' 7 .done (.inl rfl) hdone⟩

end GrillPlatform
