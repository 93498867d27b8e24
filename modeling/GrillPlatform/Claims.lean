import GrillPlatform.Locking.Serial
import GrillPlatform.World

/-! The claims of the poll tick as the transactions they are, locked row by row and interleaved with
the claims of other pollers and with every other write. -/

namespace GrillPlatform
open SkipLocked

inductive ClaimCall where
  | queued (gpuType : GpuType) (limit : Int) (now : Time)
  | runningTimedOut (cutoff now : Time)
  | provisioningTimedOut (cutoff now : Time)
  deriving DecidableEq

namespace ClaimCall

def claimed : ClaimCall → RunStatus
  | .queued .. => .queued
  | .runningTimedOut .. => .running
  | .provisioningTimedOut .. => .provisioning

def wants : ClaimCall → Run → Bool
  | .queued gpuType _ _ => RunRepository.claimable gpuType
  | .runningTimedOut cutoff _ => RunRepository.runningTimedOut cutoff
  | .provisioningTimedOut cutoff _ => RunRepository.provisioningTimedOut cutoff

/-- A limit of zero or less claims nothing. -/
def limit : ClaimCall → Option Nat
  | .queued _ limit _ => some limit.toNat
  | .runningTimedOut .. | .provisioningTimedOut .. => none

def write : ClaimCall → Run → Run
  | .queued _ _ now => fun run =>
    { run with status := .provisioning, provisioningStartedAt := some now }
  | .runningTimedOut _ now => fun run =>
    { run with
      status := .failed, endedAt := some now, errorMessage := some "timeout: claimed by reaper" }
  | .provisioningTimedOut _ now => fun run =>
    { run with
      status := .failed, endedAt := some now
      errorMessage := some "timeout: stuck in provisioning" }

def now : ClaimCall → Time
  | .queued _ _ now | .runningTimedOut _ now | .provisioningTimedOut _ now => now

def query : ClaimCall → Query
  | .queued gpuType limit _ => .claimQueued gpuType limit
  | .runningTimedOut cutoff _ => .claimRunningTimedOut cutoff
  | .provisioningTimedOut cutoff _ => .claimProvisioningTimedOut cutoff

def resp : (c : ClaimCall) → List Run → c.query.Resp
  | .queued .., runs => runs.map fun r => (r.id, r.gpuTypeRequired)
  | .runningTimedOut .., runs => runs.map fun r => (r.id, r.currentPhase)
  | .provisioningTimedOut .., runs => runs.map Run.id

theorem status_of_wants {c : ClaimCall} {run : Run} (h : c.wants run = true) :
    run.status = c.claimed := by
  cases c with
  | queued g l now => exact (of_decide_eq_true h).1
  | runningTimedOut cutoff now => exact (of_decide_eq_true h).1
  | provisioningTimedOut cutoff now => exact (of_decide_eq_true h).1

theorem id_write (c : ClaimCall) (run : Run) : (c.write run).id = run.id := by cases c <;> rfl

theorem status_write (c : ClaimCall) (run : Run) : (c.write run).status ≠ c.claimed := by
  cases c <;> simp [write, claimed]

def claim (c : ClaimCall) : Claim Run.id Run.status where
  wants := c.wants
  limit := c.limit
  write := c.write
  keeps := c.id_write
  leaves run h := status_of_wants h ▸ c.status_write run

end ClaimCall

abbrev ClaimState := State ClaimCall RunId Run

/-- A table with any contents and no transaction open. -/
def ClaimState.start (db : Db) : ClaimState := { rows := db.runs.get }

/-- The runs a call claims when it runs alone; without an `ORDER BY` the server picks the rows of a
limit. -/
def ClaimCall.chosen (c : ClaimCall) (pick : List RunId) (db : Db) : List Run :=
  match c with
  | .queued gpuType limit _ =>
    (RunRepository.limited pick (RunRepository.queuedIds db gpuType) limit.toNat).filterMap
      db.runs.get
  | c => db.runs.rows.filter c.wants

theorem map_id_filterMap {db : Db} {ids : List RunId}
    (h : ∀ k ∈ ids, (db.runs.get k).isSome = true) :
    (ids.filterMap db.runs.get).map Run.id = ids := by
  induction ids with
  | nil => rfl
  | cons k ids ih =>
    obtain ⟨run, hrun⟩ := Option.isSome_iff_exists.1 (h k List.mem_cons_self)
    rw [List.filterMap_cons_some hrun, List.map_cons, Table.key_of_get hrun,
      ih fun k' hk => h k' (List.mem_cons_of_mem k hk)]

section
variable (pick : List RunId) (db : Db)

theorem map_id_chosen (gpuType : GpuType) (limit : Int) (now : Time) :
    ((ClaimCall.queued gpuType limit now).chosen pick db).map Run.id =
      RunRepository.limited pick (RunRepository.queuedIds db gpuType) limit.toNat := by
  refine map_id_filterMap fun k hk => ?_
  obtain ⟨run, hrun, -⟩ := RunRepository.mem_queuedIds.1 (RunRepository.limited_subset hk)
  rw [hrun]
  rfl

theorem chosen_wanted (c : ClaimCall) :
    ∀ run ∈ c.chosen pick db, db.runs.get run.id = some run ∧ c.wants run = true := by
  intro run hrun
  cases c with
  | queued gpuType limit now =>
    obtain ⟨k, hk, hget⟩ := List.mem_filterMap.1 hrun
    obtain ⟨run', hget', hs, hg⟩ := RunRepository.mem_queuedIds.1 (RunRepository.limited_subset hk)
    obtain rfl : run = run' := Option.some.inj (hget.symm.trans hget')
    rw [Table.key_of_get hget]
    exact ⟨hget, decide_eq_true ⟨hs, hg⟩⟩
  | runningTimedOut cutoff now | provisioningTimedOut cutoff now =>
    obtain ⟨hm, hw⟩ := List.mem_filter.1 hrun
    exact ⟨Table.get_eq_some.2 ⟨hm, rfl⟩, hw⟩

theorem chosen_nodup (c : ClaimCall) : ((c.chosen pick db).map Run.id).Nodup := by
  cases c with
  | queued gpuType limit now =>
    rw [map_id_chosen]
    exact RunRepository.limited_nodup (RunRepository.queuedIds_nodup db gpuType)
  | runningTimedOut cutoff now | provisioningTimedOut cutoff now =>
    exact db.runs.nodup.sublist (List.filter_sublist.map Run.id)

theorem length_chosen (c : ClaimCall) : ∀ n ∈ c.limit, (c.chosen pick db).length ≤ n := by
  intro n hn
  cases c with
  | queued gpuType limit now =>
    cases hn
    rw [← List.length_map Run.id, map_id_chosen, RunRepository.length_limited]
    exact Nat.min_le_left _ _
  | runningTimedOut cutoff now | provisioningTimedOut cutoff now => cases hn

/-- The repository methods in the terms of the calls. -/
theorem tx_chosen (c : ClaimCall) :
    ∃ db', c.query.tx pick c.now db = .ok (c.resp (c.chosen pick db), db') ∧
      ∀ k, db'.runs.get k = (db.runs.get k).map fun run =>
        if run ∈ c.chosen pick db then c.write run else run := by
  cases c with
  | queued gpuType limit now =>
    have hids := map_id_chosen pick db gpuType limit now
    have hmem : ∀ k run, db.runs.get k = some run →
        (run ∈ (ClaimCall.queued gpuType limit now).chosen pick db ↔
          run.id ∈ RunRepository.limited pick
          (RunRepository.queuedIds db gpuType) limit.toNat) := by
      intro k run hrun
      rw [← hids, List.mem_map]
      constructor
      · exact fun h => ⟨run, h, rfl⟩
      · rintro ⟨run', h, hid⟩
        have hget := (chosen_wanted pick db _ run' h).1
        rw [hid, Table.key_of_get hrun, hrun] at hget
        exact Option.some.inj hget ▸ h
    have hresp : (ClaimCall.queued gpuType limit now).resp
        ((ClaimCall.queued gpuType limit now).chosen pick db) =
        (RunRepository.limited pick (RunRepository.queuedIds db gpuType) limit.toNat).map
          (·, gpuType) := by
      rw [← hids, List.map_map]
      refine List.map_congr_left fun run h => ?_
      exact Prod.ext rfl (of_decide_eq_true (chosen_wanted pick db _ run h).2).2
    -- a limit that is not positive returns before the query
    show ∃ db', RunRepository.claimQueued gpuType limit pick now db = .ok (_, db') ∧ _
    rw [hresp, RunRepository.claimQueued]
    by_cases hlimit : limit ≤ 0
    · have hnone :
          RunRepository.limited pick (RunRepository.queuedIds db gpuType) limit.toNat = [] := by
        rw [← List.length_eq_zero_iff, RunRepository.length_limited, Int.toNat_of_nonpos hlimit]
        exact Nat.zero_min _
      refine ⟨db, by rw [if_pos hlimit, hnone]; rfl, fun k => ?_⟩
      cases hrun : db.runs.get k with
      | none => rfl
      | some run =>
        rw [Option.map_some, if_neg]
        rw [hmem k run hrun, hnone]
        exact List.not_mem_nil
    · refine ⟨_, if_neg hlimit, fun k => ?_⟩
      rw [Db.get_modifyRuns]
      cases hrun : db.runs.get k with
      | none => rfl
      | some run =>
        simp only [Option.map_some, decide_eq_true_eq, hmem k run hrun]
        rfl
  | runningTimedOut cutoff now | provisioningTimedOut cutoff now =>
    refine ⟨_, rfl, fun k => ?_⟩
    rw [Db.get_modifyRuns]
    cases hrun : db.runs.get k with
    | none => rfl
    | some run =>
      have hm := (Table.get_eq_some.1 hrun).1
      simp only [Option.map_some, ClaimCall.chosen, List.mem_filter, hm, true_and]
      rfl

/-- A claim that runs alone does what its repository method does at once. -/
theorem serial_query (c : ClaimCall) :
    ∃ s db', exec ClaimCall.claim (ClaimState.start db)
        (serial 0 c ((c.chosen pick db).map fun run => (run.id, run))) = some s ∧
      c.query.tx pick c.now db = .ok (c.resp (c.chosen pick db), db') ∧ s.rows = db'.runs.get := by
  have hkeys : ((c.chosen pick db).map fun run => (run.id, run)).map Prod.fst =
      (c.chosen pick db).map Run.id := by
    rw [List.map_map]
    rfl
  have hrows : ∀ q ∈ (c.chosen pick db).map fun run => (run.id, run),
      (ClaimState.start db).rows q.1 = some q.2 ∧ (ClaimCall.claim c).wants q.2 = true := by
    intro q hq
    obtain ⟨run, hrun, rfl⟩ := List.mem_map.1 hq
    exact chosen_wanted pick db c run hrun
  have hroom : ∀ n ∈ (ClaimCall.claim c).limit,
      ((c.chosen pick db).map fun run => (run.id, run)).length ≤ n := by
    intro n hn
    rw [List.length_map]
    exact length_chosen pick db c n hn
  obtain ⟨s, hs, htable, -⟩ := exec_serial (s := ClaimState.start db) (i := 0) rfl (fun _ => rfl)
    hrows (hkeys ▸ chosen_nodup pick db c) hroom
  obtain ⟨db', htx, hget⟩ := tx_chosen pick db c
  refine ⟨s, db', hs, htx, ?_⟩
  funext k
  rw [htable, hget, overlay, hkeys]
  have hstart : (ClaimState.start db).rows k = db.runs.get k := rfl
  rw [hstart]
  cases hrun : db.runs.get k with
  | none => split <;> rfl
  | some run =>
    have hmem : k ∈ (c.chosen pick db).map Run.id ↔ run ∈ c.chosen pick db := by
      rw [List.mem_map]
      constructor
      · rintro ⟨run', h, rfl⟩
        have hget := (chosen_wanted pick db c run' h).1
        rw [hrun] at hget
        exact Option.some.inj hget ▸ h
      · exact fun h => ⟨run, h, Table.key_of_get hrun⟩
    by_cases hchosen : run ∈ c.chosen pick db
    · rw [if_pos (hmem.2 hchosen), Option.map_some, Option.map_some, if_pos hchosen]
      rfl
    · rw [if_neg (fun h => hchosen (hmem.1 h)), Option.map_some, if_neg hchosen]

end

/-- In every interleaving of claims and other writes, a stay of a run in a status is returned by one
call at most and in one place of it; a returned run was in the claimed status and of the requested
type when the call committed; and a call returns no more runs than its limit. -/
theorem claims_exclusive {db : Db} {s : ClaimState}
    (h : Reach ClaimCall.claim (ClaimState.start db) s) :
    (s.answers.flatMap Answer.stays).Nodup ∧ ∀ a ∈ s.answers,
      (∀ q ∈ a.rows, a.before q.1 = some q.2 ∧ q.2.id = q.1 ∧ a.call.wants q.2 = true ∧
        q.2.status = a.call.claimed) ∧
      ∀ gpuType limit now, a.call = .queued gpuType limit now →
        (∀ q ∈ a.rows, q.2.gpuTypeRequired = gpuType) ∧ a.rows.length ≤ limit.toNat := by
  have hinv := inv_of_reach (inv_start _ (fun k row hk => Table.key_of_get hk) (fun _ => rfl) rfl) h
  refine ⟨hinv.once, fun a ha => ?_⟩
  have hsound := hinv.answers a ha
  constructor
  · intro q hq
    obtain ⟨hbefore, hwants⟩ := hsound.found q hq
    exact ⟨hbefore, hsound.keyed q hq, hwants, ClaimCall.status_of_wants hwants⟩
  · rintro gpuType limit now hcall
    constructor
    · intro q hq
      have hwants := (hsound.found q hq).2
      rw [hcall] at hwants
      exact (of_decide_eq_true hwants).2
    · apply hsound.within limit.toNat
      rw [hcall]
      rfl

namespace Sample

def waiting (k : RunId) : Run :=
  { id := k, model := "m", modelSizeB := 8, engine := .vllm, gpuTypeRequired := .L40S,
    scenarioPath := "s.yaml", createdAt := 0 }

/-- Two pollers that share two queued runs. -/
def pollers : List (Action ClaimCall RunId Run) :=
  [.put (waiting 7), .put (waiting 8), .start 0 (.queued .L40S 2 5), .start 1 (.queued .L40S 2 6),
    .lock 0 7, .lock 1 8, .fetch 0, .update 0 7, .fetch 1, .commit 0, .update 1 8, .commit 1]

end Sample

theorem claims_of_pollers :
    ∃ s, exec ClaimCall.claim (ClaimState.start .empty) Sample.pollers = some s ∧
    s.answers.map Answer.stays = [[(7, 1)], [(8, 1)]] ∧
    (s.answers.flatMap Answer.stays).Nodup := by
  have hexec : (exec ClaimCall.claim (ClaimState.start .empty) Sample.pollers).map
      (fun s => s.answers.map Answer.stays) = some [[(7, 1)], [(8, 1)]] := by decide
  obtain ⟨s, hs, hstays⟩ := Option.map_eq_some_iff.1 hexec
  exact ⟨s, hs, hstays, (claims_exclusive (reach_of_exec .refl hs)).1⟩

end GrillPlatform
