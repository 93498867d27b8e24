import GrillPlatform.RunRows

/-! The life of a run. Five repository methods write a status without looking at the one they
overwrite; a step keeps the lifecycle exactly when none of them comes too late. -/

namespace GrillPlatform
open Coroutine RunRepository

def lifecycle : List (RunStatus × RunStatus) :=
  [(.queued, .provisioning), (.provisioning, .running), (.provisioning, .queued),
    (.provisioning, .failed), (.running, .done), (.running, .failed)]

def RunStatus.final (s : RunStatus) : Prop := s = .done ∨ s = .failed

theorem RunStatus.final.no_edge {s s' : RunStatus} (h : s.final) : (s, s') ∉ lifecycle := by
  rcases h with rfl | rfl <;> cases s' <;> decide

/-- Every change of a status is an edge of the lifecycle. -/
def Lawful (db db' : Db) : Prop :=
  ∀ r s s', db.status r = some s → db'.status r = some s' → s' = s ∨ (s, s') ∈ lifecycle

/-- The call finds the run in a status it may overwrite, or already in the one it writes. -/
def Query.onTime (db : Db) : Query → Prop
  | .completeRun r _ result => ∀ s ∈ db.status r,
      s ∈ [.running, .done] ∨ (db.results.get result.runId).isSome
  | .failRun r _ | .setFailed r _ _ => ∀ s ∈ db.status r, s ∈ [.provisioning, .running, .failed]
  | .setRunning r _ => ∀ s ∈ db.status r, s ∈ [.provisioning, .running]
  | .requeueForRetry r m => ∀ run ∈ db.runs.get r,
      m ≤ run.provisionAttempts + 1 ∨ run.status ∈ [.provisioning, .queued]
  | _ => True

instance Query.decidableOnTime (db : Db) : (c : Query) → Decidable (c.onTime db)
  | .completeRun r .. | .failRun r _ | .setFailed r .. | .setRunning r _ =>
    inferInstanceAs (Decidable (∀ s ∈ db.status r, _))
  | .requeueForRetry r _ => inferInstanceAs (Decidable (∀ run ∈ db.runs.get r, _))
  | .runGet _ | .claimQueued .. | .countLiveByType | .hasActiveRun .. | .runCreate _
  | .setLogsUrl .. | .setPhase .. | .claimRunningTimedOut _ | .getOrphanedProvisioning
  | .claimProvisioningTimedOut _ | .nodeGet _ | .nodeCreate _ | .nodeSave _
  | .createProvisioning .. | .setBusy .. | .getLeaked | .setDownByRun _ => isTrue trivial

theorem RowWrite.lawful {now : Time} {q : Query} {db : Db} {r : RunId} {run run' : Run}
    (h : RowWrite now q run run') (hg : db.runs.get r = some run) (ht : q.onTime db) :
    run'.status = run.status ∨ (run.status, run'.status) ∈ lifecycle ∨
      ∃ url result, q = .completeRun run.id url result ∧
        (db.results.get result.runId).isSome := by
  obtain rfl := Table.key_of_get hg
  have hs := Db.status_of_get hg
  -- the condition names the statuses a writer may find; the watchdogs and the claim look themselves
  cases h with
  | claim hq => rw [hq]; exact .inr (.inl (by simp [lifecycle]))
  | complete =>
    rcases ht _ hs with h | h
    · simp only [List.mem_cons, List.not_mem_nil, or_false] at h
      rcases h with h | h <;> rw [h]
      · exact .inr (.inl (by simp [lifecycle]))
      · exact .inl rfl
    · exact .inr (.inr ⟨_, _, rfl, h⟩)
  | fail | failed =>
    have h := ht _ hs
    simp only [List.mem_cons, List.not_mem_nil, or_false] at h
    rcases h with h | h | h <;> rw [h]
    · exact .inr (.inl (by simp [lifecycle]))
    · exact .inr (.inl (by simp [lifecycle]))
    · exact .inl rfl
  | running =>
    have h := ht _ hs
    simp only [List.mem_cons, List.not_mem_nil, or_false] at h
    rcases h with h | h <;> rw [h]
    · exact .inr (.inl (by simp [lifecycle]))
    · exact .inl rfl
  | logs | phase | exhausted => exact .inl rfl
  | reapRunning hc =>
    have h : run.status = .running := (of_decide_eq_true hc).1
    rw [h]; exact .inr (.inl (by simp [lifecycle]))
  | reapProvisioning hc =>
    have h : run.status = .provisioning := (of_decide_eq_true hc).1
    rw [h]; exact .inr (.inl (by simp [lifecycle]))
  | requeue hm =>
    have h := (ht _ hg).resolve_left hm
    simp only [List.mem_cons, List.not_mem_nil, or_false] at h
    rcases h with h | h <;> rw [h]
    · exact .inr (.inl (by simp [lifecycle]))
    · exact .inl rfl

theorem lawful_of_onTime {q : Query} {pick : List RunId} {now : Time} {db db' : Db} {a : q.Resp}
    (h : q.tx pick now db = .ok (a, db')) (ht : q.onTime db) : Lawful db db' := by
  intro r s s' hs hs'
  rcases q.rowStep h r with he | ⟨run, run', hx, hy, hw⟩ | ⟨run, _, _, hx, _⟩
  · rw [Db.status, he] at hs'
    exact .inl (Option.some.inj (hs'.symm.trans hs))
  · cases (Db.status_of_get hx).symm.trans hs
    cases (Db.status_of_get hy).symm.trans hs'
    rcases hw.lawful hx ht with h' | h' | ⟨url, result, rfl, hsome⟩
    · exact .inl h'
    · exact .inr h'
    · rw [completeRun_fresh h] at hsome
      cases hsome
  · rw [Db.status, hx] at hs
    cases hs

theorem onTime_of_lawful {q : Query} {pick : List RunId} {now : Time} {db : Db}
    (h : ∀ a db', q.tx pick now db = .ok (a, db') → Lawful db db') : q.onTime db := by
  cases q with
  | completeRun r url result =>
    intro s hs
    obtain ⟨run, hg, rfl⟩ := Db.get_of_status hs
    cases hr : db.results.get result.runId with
    | some x => exact .inr rfl
    | none =>
      obtain ⟨a, db', ho, hd, -⟩ := completeRun_of_fresh url now hg hr
      left
      have := h a db' ho r _ _ hs hd
      revert this
      cases run.status <;> simp [lifecycle]
  | failRun r msg | setFailed r t msg | setRunning r t =>
    intro s hs
    obtain ⟨run, hg, rfl⟩ := Db.get_of_status hs
    obtain ⟨a, db', ho, hd, -⟩ := status_onRun _ _ _ hg
    have := h a db' ho r _ _ hs hd
    revert this
    cases run.status <;> simp [lifecycle]
  | requeueForRetry r m =>
    intro run hg
    by_cases hm : m ≤ run.provisionAttempts + 1
    · exact .inl hm
    · obtain ⟨a, db', ho, hd, -⟩ := status_onRun s!"Run with id {uuidStr r} not found"
        (retried m) (id_retried m) hg
      have := h _ db' (by rw [Query.tx, requeueForRetry, ho]) r _ _ (Db.status_of_get hg) hd
      rw [retried, if_neg (by simpa using hm)] at this
      right
      revert this
      cases run.status <;> simp [lifecycle]
  | _ => trivial

variable {cfg : Config}

/-- No unguarded write of the step comes too late. -/
def OnTime : System cfg → Step cfg → Prop := System.Meets fun db c => c.onTime db

theorem lawful_step_iff {p q : System cfg} {l : Step cfg} (h : p.step l = some q) :
    Lawful p.world.db q.world.db ↔ OnTime p l :=
  System.rel_iff_meets h (fun _ _ _ hs hs' => .inl (Option.some.inj (hs'.symm.trans hs)))
    fun _ _ _ _ => ⟨fun ht _ _ ha => lawful_of_onTime ha ht, onTime_of_lawful⟩

theorem final_absorbing {p₀ p : System cfg} (h : Pool.Reach OnTime p₀ p) {r : RunId}
    {s : RunStatus} (hf : s.final) (hs : p₀.world.db.status r = some s) :
    p.world.db.status r = some s := by
  induction h with
  | init => exact hs
  | @step p q l _ hc hq ih =>
    obtain ⟨s', hs'⟩ := System.status_step hq ih
    rcases (lawful_step_iff hq).2 hc r s s' ih hs' with rfl | he
    · exact hs'
    · exact absurd he hf.no_edge

/-- The commit of a completion overtaken by the watchdog moves a failed run to done. -/
theorem not_lawful : ¬ ∀ (p q : System Sample.config) (l : Step Sample.config),
    System.Reachable Sample.start p → p.step l = some q → Lawful p.world.db q.world.db := by
  intro h
  have hp : (Sample.start.exec (Sample.reaped 7)).isSome := by decide
  have hq : (Sample.start.exec (Sample.reaped 7 ++ [.run 5 {}])).isSome := by decide
  have h :=
    h _ _ _ (Pool.reach_play _ _ hp) (Pool.step_play hq) 7 .failed .done (by decide) (by decide)
  exact absurd h (by decide)

end GrillPlatform
