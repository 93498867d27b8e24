import GrillPlatform.Completion
import GrillPlatform.NodeRows
import GrillPlatform.RunRows

/-! Startup recovery. It hands the ended runs with a `busy` row and the provisioning runs to
`release_node`; an ended run is overlooked when its row is still `provisioning`. -/

namespace GrillPlatform
open Coroutine RunRepository NodeRepository
variable {cfg : Config}

/-- The runs a restart would hand to `release_node`. -/
def recovered (db : Db) : List RunId := leaked db ++ orphaned db

section
variable {i : Nat} {n : TaskName} {ω : Nat → Env} {w : World} {created : List TaskName}
  {Q : Except Exc Unit → World → List TaskName → Prop}

theorem ends_createTasks {β : Type} {f : β → TaskName} {rest : Unit → Async Unit} {xs : List β}
    (hω : ∀ k, (ω k).fault = .none)
    (h : ∀ (ω' : Nat → Env) (w' : World), (∀ k, (ω' k).fault = .none) → w'.db = w.db →
      Ends cfg i n (rest ()) ω' w' (created ++ xs.map f) Q) :
    Ends cfg i n ((Prog.forEach xs fun x => createTask (f x)).bind rest) ω w created Q := by
  induction xs generalizing ω w created with
  | nil =>
    have hrest := h ω w hω rfl
    rw [List.map_nil, List.append_nil] at hrest
    exact hrest
  | cons x xs ih =>
    have hrest : Ends cfg i n ((Prog.forEach xs fun x => createTask (f x)).bind rest)
        (fun k => ω (k + 1)) { w with clock := w.clock + (ω 0).elapsed } (created ++ [f x]) Q := by
      refine ih (fun k => hω (k + 1)) fun ω' w' hω' hdb => ?_
      have hlast := h ω' w' hω' hdb
      rwa [List.map_cons, List.append_cons] at hlast
    exact hrest

theorem ends_call {op : Op} {next : op.Resp → Async Unit} :
    Ends cfg i n (.call op next) ω w created Q ↔
      let r := (orchestrator cfg).handle i n op (ω 0) w
      Ends cfg i n (next r.1) (fun k => ω (k + 1)) r.2.1 (created ++ r.2.2.toList) Q := Iff.rfl

theorem ends_reading {q : Query} {f : q.Resp → Async Unit} {a : q.Resp}
    (hω : ∀ k, (ω k).fault = .none) (hq : ∀ pick now, q.tx pick now w.db = .ok (a, w.db))
    (h : ∀ w', w'.db = w.db → Ends cfg i n (f a) (fun k => ω (k + 1)) w' created Q) :
    Ends cfg i n ((query q).bind f) ω w created Q := by
  have hrun : ∀ t, q.run (ω 0) t w.db = (.ok a, w.db) := by
    intro t
    rw [Query.run, Env.guard, hω 0, hq]
  rw [ends_query]
  dsimp only
  rw [hrun]
  exact h _ rfl

theorem ends_bind {α β : Type} {p : Async α} {f : α → Async β} {g : β → Async Unit}
    (h : Ends cfg i n (p.bind fun a => (f a).bind g) ω w created Q) :
    Ends cfg i n ((p >>= f).bind g) ω w created Q := by
  rw [← Prog.bind_assoc] at h
  exact h

/-- The boot task hands over the leaked runs and the orphans. -/
theorem ends_pollingLoop (hω : ∀ k, (ω k).fault = .none) :
    Ends cfg i n pollingLoop ω w [] fun _ _ created =>
      created = (leaked w.db).map TaskName.releaseNode ++
        (orphaned w.db).map TaskName.recoverOrphanedProvisioningRun ++ [.pollTick] := by
  have hrecover : ∀ (ω : Nat → Env) (w' : World), (∀ k, (ω k).fault = .none) → w'.db = w.db →
      Ends cfg i n (recoverLeakedNodes.bind fun _ => recoverOrphanedProvisioning.bind fun _ =>
        createTask .pollTick) ω w' [] fun _ _ created =>
          created = (leaked w.db).map TaskName.releaseNode ++
            (orphaned w.db).map TaskName.recoverOrphanedProvisioningRun ++ [.pollTick] := by
    intro ω w' hω hdb
    refine ends_bind (ends_reading (a := leaked w'.db) hω (fun _ _ => rfl) fun w₁ h₁ => ?_)
    refine ends_createTasks (fun k => hω (k + 1)) fun ω₁ w₂ hω₁ h₂ => ?_
    refine ends_bind (ends_reading (a := orphaned w₂.db) hω₁ (fun _ _ => rfl) fun w₃ h₃ => ?_)
    refine ends_createTasks (fun k => hω₁ (k + 1)) fun ω₂ w₄ _ _ => ?_
    rw [ends_createTask, h₂, h₁, hdb, List.nil_append]
  -- the quotas are refreshed first, if they can be fetched
  rw [pollingLoop, refreshGpuQuota]
  refine ends_call.2 ?_
  dsimp only
  cases ((orchestrator cfg).handle i n .fetchGpuQuota (ω 0) w).1 with
  | error => exact hrecover _ _ (fun k => hω (k + 1)) rfl
  | ok => exact hrecover _ _ (fun k => hω (k + 2)) rfl

end

/-- After a crash the boot task hands every run of `recovered` over, whatever the state was. -/
theorem restart_recovers (p : System cfg) (e : Env) : ∃ ls q, p.exec (.crash e :: ls) = some q ∧
    (∀ r ∈ leaked p.world.db, TaskName.releaseNode r ∈ System.taskNames q) ∧
    ∀ r ∈ orphaned p.world.db, TaskName.recoverOrphanedProvisioningRun r ∈ System.taskNames q := by
  let w : World := p.world.reboot cfg e
  obtain ⟨ls, hls, -⟩ := Pool.exec_solo (M := orchestrator cfg) (C := fun _ _ => True) []
    .pollingLoop pollingLoop (fun _ => {}) w [] fun _ _ _ => trivial
  have hends : Ends cfg 0 .pollingLoop pollingLoop (fun _ => {}) w [] _ :=
    ends_pollingLoop fun _ => rfl
  have hname : ∀ m : TaskName, m ∈ (leaked p.world.db).map TaskName.releaseNode ++
      (orphaned p.world.db).map TaskName.recoverOrphanedProvisioningRun ++ [.pollTick] →
      m ∈ (pollingLoop.exec (Pool.solo (orchestrator cfg) 0 .pollingLoop)
        (fun _ => {}) (w, [])).2.1.2 := fun m hm => hends.symm ▸ hm
  refine ⟨ls, _, hls, fun r hr => ?_, fun r hr => ?_⟩
  all_goals
    refine List.mem_cons_of_mem _ (List.mem_map.2 ⟨_, List.mem_map_of_mem (hname _ ?_), rfl⟩)
  · simp [hr]
  · simp [hr]

/-- No row of the run is in provisioning. -/
def Settled (db : Db) (r : RunId) : Prop := ∀ n ∈ db.nodesOf r, n.status ≠ .provisioning

/-- An ended run has no row that recovery would overlook. -/
def Traced (db : Db) : Prop := ∀ r, ended db r = true → Settled db r

theorem ended_iff {db : Db} {r : RunId} :
    ended db r = true ↔ ∃ run, db.runs.get r = some run ∧
    (run.status = .done ∨ run.status = .failed) := by
  simp only [ended, decide_eq_true_eq, Db.status, Option.map_eq_some_iff, ← exists_or,
    ← and_or_left]

theorem mem_recovered {db : Db} (ht : Traced db) {r : RunId} (he : ended db r = true) {n : Node}
    (hn : n ∈ db.nodesOf r) (hs : n.status ≠ .down) : r ∈ recovered db := by
  obtain ⟨hm, hr⟩ := Db.mem_nodesOf.1 hn
  have hb : n.status = .busy := by
    have := ht r he n hn
    cases h : n.status <;> simp_all
  exact List.mem_append_left _ (mem_leaked.2 ⟨⟨n, hm, hr, hb⟩, he⟩)

/-- The call ends only runs whose rows are settled, and starts no row for an ended run. -/
def Query.settled (db : Db) : Query → Prop
  | .completeRun r _ result => (db.runs.get r).isSome → db.results.get result.runId = none →
      Settled db r
  | .failRun r _ | .setFailed r _ _ => (db.runs.get r).isSome → Settled db r
  | .claimRunningTimedOut cutoff => ∀ run ∈ db.runs.rows, runningTimedOut cutoff run = true →
      Settled db run.id
  | .claimProvisioningTimedOut cutoff => ∀ run ∈ db.runs.rows,
      provisioningTimedOut cutoff run = true → Settled db run.id
  | .createProvisioning r _ => ended db r = false
  | _ => True

instance Settled.decidable (db : Db) (r : RunId) : Decidable (Settled db r) :=
  inferInstanceAs (Decidable (∀ n ∈ db.nodesOf r, _))

instance Query.decidableSettled (db : Db) : (c : Query) → Decidable (c.settled db)
  | .completeRun r .. | .failRun r _ | .setFailed r .. =>
    inferInstanceAs (Decidable ((db.runs.get r).isSome → _))
  | .claimRunningTimedOut _ | .claimProvisioningTimedOut _ =>
    inferInstanceAs (Decidable (∀ run ∈ db.runs.rows, _))
  | .createProvisioning r _ => inferInstanceAs (Decidable (ended db r = false))
  | .runGet _ | .claimQueued .. | .countLiveByType | .hasActiveRun .. | .runCreate _
  | .setRunning .. | .setLogsUrl .. | .setPhase .. | .getOrphanedProvisioning
  | .requeueForRetry .. | .nodeGet _ | .nodeCreate _ | .nodeSave _ | .setBusy .. | .getLeaked
  | .setDownByRun _ => isTrue trivial

theorem RowWrite.ends {now : Time} {q : Query} {db : Db} {run run' : Run}
    (h : RowWrite now q run run') (hg : db.runs.get run.id = some run) (hq : q.settled db)
    (hf : ∀ r url result, q = .completeRun r url result → db.results.get result.runId = none)
    (he : run'.status = .done ∨ run'.status = .failed) :
    (run.status = .done ∨ run.status = .failed) ∨ Settled db run.id := by
  have hsome : (db.runs.get run.id).isSome := by rw [hg]; rfl
  cases h with
  | complete => exact .inr (hq hsome (hf _ _ _ rfl))
  | fail | failed => exact .inr (hq hsome)
  | reapRunning hc | reapProvisioning hc => exact .inr (hq run (Table.get_eq_some.1 hg).1 hc)
  | logs | phase | exhausted => exact .inl he
  | claim | running | requeue => simp at he

theorem settled_of_ended {q : Query} {pick : List RunId} {now : Time} {db db' : Db} {a : q.Resp}
    (h : q.tx pick now db = .ok (a, db')) (ht : Traced db) (hs : q.settled db)
    (hq : q.regular cfg) {r : RunId} (he : ended db' r = true) : Settled db r := by
  obtain ⟨run', hg', hf'⟩ := ended_iff.1 he
  rcases q.rowStep h r with hsame | ⟨run, y, hx, hy, hw⟩ | ⟨run, rfl, -, -, hy⟩
  · exact ht r (ended_iff.2 ⟨run', hsame ▸ hg', hf'⟩)
  · cases hy.symm.trans hg'
    obtain rfl := Table.key_of_get hx
    rcases hw.ends hx hs (by rintro _ _ _ rfl; exact completeRun_fresh h) hf' with hf | hset
    · exact ht _ (ended_iff.2 ⟨run, hx, hf⟩)
    · exact hset
  · cases hy.symm.trans hg'
    simp [hq.1] at hf'

theorem traced_of_settled {q : Query} {pick : List RunId} {now : Time} {db db' : Db} {a : q.Resp}
    (h : q.tx pick now db = .ok (a, db')) (ht : Traced db) (hs : q.settled db)
    (hq : q.regular cfg) : Traced db' := by
  intro r he n hn hp
  have hset := settled_of_ended h ht hs hq he
  obtain ⟨hm, hr⟩ := Db.mem_nodesOf.1 hn
  rcases q.nodeStep h with hsame | ⟨k, node, hw, hrows⟩
  · exact hset n (Db.mem_nodesOf.2 ⟨hsame ▸ hm, hr⟩) hp
  rcases (hrows n).1 hm with rfl | ⟨hm, -⟩
  · cases hw with
    | create => cases hq.symm.trans hr
    | save => cases hq.symm.trans hp
    | provisioning =>
      cases hr
      cases (createProvisioning_ok _ _ db).symm.trans h
      cases hs.symm.trans he
    | busy | down => cases hp
  · exact hset n (Db.mem_nodesOf.2 ⟨hm, hr⟩) hp

theorem settled_of_nodes {db db' : Db} (ht : Traced db') (hn : db'.nodes = db.nodes) {r : RunId}
    (he : ended db' r = true) : Settled db r := fun n h => ht r he n (by rwa [Db.nodesOf, hn])

theorem ended_of_status {db : Db} {r : RunId} {s : RunStatus} (h : db.status r = some s)
    (hs : s = .done ∨ s = .failed) : ended db r = true := by
  rw [ended, h]
  simpa using hs

theorem settled_of_modifyRuns {db : Db} {p : Run → Bool} {f : Run → Run} {hf}
    (ht : Traced (db.modifyRuns p f hf)) (hs : ∀ run, (f run).status = .failed) {run : Run}
    (hr : run ∈ db.runs.rows) (hp : p run = true) : Settled db run.id := by
  refine settled_of_nodes ht rfl (ended_iff.2 ⟨f run, ?_, .inr (hs run)⟩)
  rw [Db.get_modifyRuns, Table.get_eq_some.2 ⟨hr, rfl⟩]
  simp [hp]

theorem settled_of_traced {q : Query} {pick : List RunId} {now : Time} {db : Db}
    (h : ∀ a db', q.tx pick now db = .ok (a, db') → Traced db') : q.settled db := by
  cases q with
  | completeRun r url result =>
    intro hr hf
    obtain ⟨run, hg⟩ := Option.isSome_iff_exists.1 hr
    obtain ⟨a, db', ho, hd, hn⟩ := completeRun_of_fresh url now hg hf
    exact settled_of_nodes (h a db' ho) hn (ended_of_status hd (.inl rfl))
  | failRun r | setFailed r =>
    intro hr
    obtain ⟨run, hg⟩ := Option.isSome_iff_exists.1 hr
    obtain ⟨a, db', ho, hd, hn⟩ := status_onRun _ _ _ hg
    exact settled_of_nodes (h a db' ho) hn (ended_of_status hd (.inr rfl))
  | claimRunningTimedOut | claimProvisioningTimedOut =>
    exact fun run hr hp => settled_of_modifyRuns (h _ _ rfl) (fun _ => rfl) hr hp
  | createProvisioning r g =>
    by_contra he
    have ht := h _ _ (createProvisioning_ok r g db) r (Bool.eq_true_of_not_eq_false he)
    exact ht _ (Db.mem_nodesOf.2 ⟨Table.mem_put.2 (.inl rfl), rfl⟩) rfl
  | _ => trivial

/-- No step ends a run under a row in provisioning, or starts a row for an ended run. -/
def EndsSettled : System cfg → Step cfg → Prop := System.Meets fun db c => c.settled db

instance EndsSettled.decidable (p : System cfg) (l : Step cfg) : Decidable (EndsSettled p l) :=
  inferInstanceAs (Decidable (System.Meets _ p l))

theorem traced_step_iff {w : World} {C : System cfg → Step cfg → Prop} {p q : System cfg}
    {l : Step cfg} (hp : Pool.Reach C (System.start cfg w) p) (ht : Traced p.world.db)
    (hs : p.step l = some q) : Traced q.world.db ↔ EndsSettled p l :=
  System.rel_iff_meets (R := fun _ db => Traced db) hs ht fun _ _ hc _ =>
    ⟨fun h _ _ ha => traced_of_settled ha ht h (System.regular_of_queries hp hc), settled_of_traced⟩

/-- As long as every run ends with its rows settled, a restart in any state hands every ended run
with a row that is not down to `release_node`; a step that breaks the condition leaves a row that
recovery overlooks. -/
theorem recovered_iff_endsSettled {w : World} {p : System cfg} (hw : Traced w.db)
    (h : Pool.Reach EndsSettled (System.start cfg w) p) :
    (∀ r, ended p.world.db r = true → (∃ n ∈ p.world.db.nodesOf r, n.status ≠ .down) →
      r ∈ recovered p.world.db) ∧
    ∀ l q, p.step l = some q → (Traced q.world.db ↔ EndsSettled p l) := by
  have ht : Traced p.world.db := by
    induction h with
    | init => exact hw
    | step l hp hc hs ih => exact (traced_step_iff hp ih hs).2 hc
  exact ⟨fun r he ⟨n, hn, hs⟩ => mem_recovered ht he hn hs, fun _ _ => traced_step_iff h ht⟩

theorem recovered_of_completed :
    let p := Sample.start.play (Sample.completed 7)
    7 ∈ recovered p.world.db ∧ (Traced (p.play [.run 6 {}]).world.db ↔ EndsSettled p (.run 6 {})) :=
  have h := recovered_iff_endsSettled (w := Sample.world) (fun _ _ _ hn => by cases hn)
    (Pool.reach_play_of_obeys Sample.start (Sample.completed 7) (by decide) (by decide))
  ⟨h.1 7 (by decide) (by decide), h.2 _ _ rfl⟩

/-- A POST fails the run while its server is up and its row in provisioning: task 4 has scheduled
the release as task 5, and a restart would not look at the run again. -/
theorem not_recovered : ¬ ∀ (p : System Sample.config) (r : RunId),
    System.Reachable Sample.start p → ended p.world.db r = true →
    p.world.cloud.server r = true → TaskName.releaseNode r ∈ p.taskNames →
    (∃ n ∈ p.world.db.nodesOf r, n.status ≠ .down) → r ∈ recovered p.world.db := by
  intro h
  have hp : (Sample.start.exec (Sample.applied 7 ++
    .arrive (.request (.fail 7 "stopped")) :: Sample.steps 4 3)).isSome := by decide
  exact absurd (h _ 7 (Pool.reach_play _ _ hp) (by decide) (by decide) (by decide) (by decide))
    (by decide)

end GrillPlatform
