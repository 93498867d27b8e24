import GrillPlatform.Models

/-! `RunRepository`: each method is one transaction on the three tables. -/

namespace GrillPlatform

/-- A transaction either raises and leaves the database alone, or commits. -/
abbrev Tx (α : Type) := Db → Except Exc (α × Db)

/-- A run read or returned under its id. -/
abbrev RunOf (r : RunId) := {run : Run // run.id = r}

namespace RunRepository

/-- The shape shared by the methods that load one run by id and write to it. -/
def onRun (runId : RunId) (missing : String) (f : Run → Run) (hf : ∀ x, (f x).id = x.id) :
    Tx (RunOf runId) := fun db =>
  match h : db.runs.get runId with
  | none => .error (.valueError missing)
  | some run => .ok (⟨f run, (hf run).trans (Table.key_of_get h)⟩, db.modifyRun runId f hf)

def get (runId : RunId) : Tx (Option (RunOf runId)) := fun db =>
  .ok ((db.runs.get runId).attach.map fun run => ⟨run.1, Table.key_of_get run.2⟩, db)

theorem get_of_get {runId : RunId} {db : Db} {run : Run} (h : db.runs.get runId = some run) :
    get runId db = .ok (some ⟨run, Table.key_of_get h⟩, db) := by
  simp [get, Option.attach, h]

theorem get_of_none {runId : RunId} {db : Db} (h : db.runs.get runId = none) :
    get runId db = .ok (none, db) := by
  simp [get, Option.attach, h]

/-- Which `n` of the rows `ids` a `LIMIT n` without `ORDER BY` returns: those the server picks. -/
def limited (pick ids : List RunId) (n : Nat) : List RunId :=
  if pick.Nodup ∧ pick ⊆ ids ∧ pick.length = min n ids.length then pick else ids.take n

def claimable (gpuType : GpuType) (run : Run) : Bool :=
  run.status = .queued ∧ run.gpuTypeRequired = gpuType

def queuedIds (db : Db) (gpuType : GpuType) : List RunId :=
  (db.runs.rows.filter (claimable gpuType)).map Run.id

def claimQueued (gpuType : GpuType) (limit : Int) (pick : List RunId) (now : Time) :
    Tx (List (RunId × GpuType)) := fun db =>
  if limit ≤ 0 then .ok ([], db)
  else
    let runs := limited pick (queuedIds db gpuType) limit.toNat
    .ok (runs.map (·, gpuType), db.modifyRuns (fun run => run.id ∈ runs)
      (fun run => { run with status := .provisioning, provisioningStartedAt := some now })
      fun _ => rfl)

def isLive (run : Run) : Bool := run.status = .provisioning ∨ run.status = .running

def liveCount (db : Db) (gpuType : GpuType) : Nat :=
  db.runs.rows.countP fun run => isLive run ∧ run.gpuTypeRequired = gpuType

def countLiveByType : Tx (GpuType → Nat) := fun db => .ok (liveCount db, db)

def hasActiveRun (model : String) (engine : Engine) : Tx Bool := fun db =>
  .ok (db.runs.rows.any fun run =>
    run.model = model ∧ run.engine = engine ∧ run.status ∈ activeRunStatuses, db)

/-- The values of an `INTEGER` column. -/
def isInteger (n : Int) : Bool := -2 ^ 31 ≤ n ∧ n < 2 ^ 31

/-- The driver refuses a `model_size_b` that its column cannot hold. -/
def create (run : Run) : Tx Run := fun db =>
  if isInteger run.modelSizeB then
    match db.runs.insert run with
    | none => .error .integrityError
    | some runs => .ok (run, { db with runs := runs })
  else .error (.other "DBAPIError")

theorem create_ok {run a : Run} {db db' : Db} (h : create run db = .ok (a, db')) :
    isInteger run.modelSizeB = true ∧ a = run ∧ ∃ runs, db.runs.insert run = some runs ∧
      db' = { db with runs := runs } := by
  unfold create at h
  split at h
  · rename_i hsize
    split at h
    · cases h
    · rename_i runs hi
      cases h
      exact ⟨hsize, rfl, runs, hi, rfl⟩
  · cases h

def completed (resultsUrl : String) (now : Time) (run : Run) : Run :=
  { run with status := .done, endedAt := some now, resultsUrl := some resultsUrl }

theorem id_completed (resultsUrl : String) (now : Time) (run : Run) :
    (completed resultsUrl now run).id = run.id := rfl

def completeRun (runId : RunId) (resultsUrl : String) (result : Result) (now : Time) :
    Tx (RunOf runId) := fun db =>
  match onRun runId s!"Run {uuidStr runId} not found" (completed resultsUrl now)
      (id_completed resultsUrl now) db with
  | .error x => .error x
  | .ok (run, db') =>
    match db'.results.insert result with
    | none => .error .integrityError
    | some results => .ok (run, { db' with results := results })

def failRun (runId : RunId) (errorMessage : String) (now : Time) : Tx (RunOf runId) :=
  onRun runId s!"Run {uuidStr runId} not found"
    (fun run => { run with
      status := .failed, errorMessage := some errorMessage, endedAt := some now }) fun _ => rfl

def setRunning (runId : RunId) (startedAt : Time) : Tx (RunOf runId) :=
  onRun runId s!"Run with id {uuidStr runId} not found"
    (fun run => { run with status := .running, startedAt := some startedAt }) fun _ => rfl

def setLogsUrl (runId : RunId) (logsUrl : String) : Tx (RunOf runId) :=
  onRun runId s!"Run {uuidStr runId} not found"
    (fun run => { run with logsUrl := some logsUrl }) fun _ => rfl

/-- A run the reaper has claimed meanwhile keeps its phase; the caller is not told. -/
def setPhase (runId : RunId) (phase : String) (now : Time) : Tx (RunOf runId) :=
  onRun runId s!"Run {uuidStr runId} not found"
    (fun run => if run.status ≠ .running then run
      else { run with currentPhase := some phase, phaseUpdatedAt := some now })
    fun _ => by split <;> rfl

def runningTimedOut (cutoff : Time) (run : Run) : Bool :=
  run.status = .running ∧ run.startedAt.any (· < cutoff)

def claimRunningTimedOut (cutoff now : Time) : Tx (List (RunId × Option String)) := fun db =>
  .ok ((db.runs.rows.filter (runningTimedOut cutoff)).map fun r => (r.id, r.currentPhase),
    db.modifyRuns (runningTimedOut cutoff) (fun r => { r with
      status := .failed, endedAt := some now
      errorMessage := some "timeout: claimed by reaper" }) fun _ => rfl)

def orphaned (db : Db) : List RunId :=
  (db.runs.rows.filter fun run => run.status = .provisioning).map Run.id

def getOrphanedProvisioning : Tx (List RunId) := fun db => .ok (orphaned db, db)

def provisioningTimedOut (cutoff : Time) (run : Run) : Bool :=
  run.status = .provisioning ∧ run.provisioningStartedAt.getD run.createdAt < cutoff

def claimProvisioningTimedOut (cutoff now : Time) : Tx (List RunId) := fun db =>
  .ok ((db.runs.rows.filter (provisioningTimedOut cutoff)).map Run.id,
    db.modifyRuns (provisioningTimedOut cutoff) (fun r => { r with
      status := .failed, endedAt := some now
      errorMessage := some "timeout: stuck in provisioning" }) fun _ => rfl)

/-- One attempt more; with attempts left the run is queued again. -/
def retried (maxAttempts : Int) (run : Run) : Run :=
  let attempts := run.provisionAttempts + 1
  if maxAttempts ≤ attempts then { run with provisionAttempts := attempts }
  else { run with provisionAttempts := attempts, status := .queued }

theorem id_retried (maxAttempts : Int) (run : Run) : (retried maxAttempts run).id = run.id := by
  simp only [retried]
  split <;> rfl

/-- The new attempt count when the run is queued again, `none` when attempts are exhausted. -/
def requeueForRetry (runId : RunId) (maxAttempts : Int) : Tx (Option Nat) := fun db =>
  match onRun runId s!"Run with id {uuidStr runId} not found" (retried maxAttempts)
      (id_retried maxAttempts) db with
  | .error x => .error x
  | .ok (run, db') =>
    .ok (if maxAttempts ≤ run.1.provisionAttempts then none else some run.1.provisionAttempts, db')

def setFailed (runId : RunId) (endedAt : Time) (errorMessage : Option String) :
    Tx (RunOf runId) :=
  onRun runId s!"Run with id {uuidStr runId} not found"
    (fun run => { run with
      status := .failed, endedAt := some endedAt
      errorMessage := if errorMessage.isSome then errorMessage else run.errorMessage })
    fun _ => rfl

theorem onRun_ok {runId : RunId} {missing : String} {f : Run → Run} {hf} {db db' : Db}
    {a : RunOf runId} (h : onRun runId missing f hf db = .ok (a, db')) :
    ∃ run, db.runs.get runId = some run ∧ a.1 = f run ∧ db' = db.modifyRun runId f hf := by
  unfold onRun at h
  split at h
  · cases h
  · rename_i run hg
    cases h
    exact ⟨run, hg, rfl, rfl⟩

theorem onRun_of_get {runId : RunId} (missing : String) (f : Run → Run) (hf) {db : Db} {run : Run}
    (h : db.runs.get runId = some run) :
    ∃ a : RunOf runId, a.1 = f run ∧
      onRun runId missing f hf db = .ok (a, db.modifyRun runId f hf) := by
  unfold onRun
  split
  · rename_i hn; cases hn.symm.trans h
  · rename_i x hx
    cases hx.symm.trans h
    exact ⟨_, rfl, rfl⟩

theorem onRun_of_none {r : RunId} (missing : String) (f : Run → Run) (hf) {db : Db}
    (hg : db.runs.get r = none) : onRun r missing f hf db = .error (.valueError missing) := by
  unfold onRun
  split
  · rfl
  · rename_i run h
    cases hg.symm.trans h

theorem limited_nodup {pick ids : List RunId} {n : Nat} (h : ids.Nodup) :
    (limited pick ids n).Nodup := by
  unfold limited
  split
  · rename_i hp; exact hp.1
  · exact h.sublist (List.take_sublist n ids)

theorem limited_subset {pick ids : List RunId} {n : Nat} : limited pick ids n ⊆ ids := by
  unfold limited
  split
  · rename_i hp; exact hp.2.1
  · exact List.take_subset n ids

theorem length_limited (pick ids : List RunId) (n : Nat) :
    (limited pick ids n).length = min n ids.length := by
  unfold limited
  split
  · rename_i hp; exact hp.2.2
  · exact List.length_take

theorem queuedIds_nodup (db : Db) (gpuType : GpuType) : (queuedIds db gpuType).Nodup :=
  db.runs.nodup.sublist (List.filter_sublist.map Run.id)

theorem mem_queuedIds {db : Db} {gpuType : GpuType} {r : RunId} :
    r ∈ queuedIds db gpuType ↔
      ∃ run, db.runs.get r = some run ∧ run.status = .queued ∧ run.gpuTypeRequired = gpuType := by
  simp only [queuedIds, List.mem_map, List.mem_filter, claimable, decide_eq_true_eq,
    Table.get_eq_some]
  constructor
  · rintro ⟨run, ⟨hm, hs⟩, rfl⟩; exact ⟨run, ⟨hm, rfl⟩, hs⟩
  · rintro ⟨run, ⟨hm, rfl⟩, hs⟩; exact ⟨run, ⟨hm, hs⟩, rfl⟩

theorem claimQueued_ok {g : GpuType} {limit : Int} {pick : List RunId} {now : Time} {db db' : Db}
    {claimed : List (RunId × GpuType)} (h : claimQueued g limit pick now db = .ok (claimed, db')) :
    (claimed.map Prod.fst).Nodup ∧ claimed.length ≤ limit.toNat ∧
    ∀ r ∈ claimed.map Prod.fst, ∃ run, db.runs.get r = some run ∧ run.status = .queued ∧
      run.gpuTypeRequired = g ∧ db'.runs.get r = some
        { run with status := .provisioning, provisioningStartedAt := some now } := by
  unfold claimQueued at h
  split at h
  · cases h
    simp
  · cases h
    have hfst : ((limited pick (queuedIds db g) limit.toNat).map (·, g)).map Prod.fst =
        limited pick (queuedIds db g) limit.toNat := by
      rw [List.map_map]; exact List.map_id _
    rw [hfst]
    refine ⟨limited_nodup (queuedIds_nodup db g), ?_, fun r hr => ?_⟩
    · rw [List.length_map, length_limited]
      exact min_le_left _ _
    · obtain ⟨run, hg, hs, ht⟩ := mem_queuedIds.1 (limited_subset hr)
      refine ⟨run, hg, hs, ht, ?_⟩
      rw [Db.get_modifyRuns, hg]
      simp [Table.key_of_get hg, hr]

theorem mem_orphaned {db : Db} {r : RunId} :
    r ∈ orphaned db ↔ ∃ run, db.runs.get r = some run ∧ run.status = .provisioning := by
  simp only [orphaned, List.mem_map, List.mem_filter, decide_eq_true_eq, Table.get_eq_some]
  constructor
  · rintro ⟨run, ⟨hm, hs⟩, rfl⟩; exact ⟨run, ⟨hm, rfl⟩, hs⟩
  · rintro ⟨run, ⟨hm, rfl⟩, hs⟩; exact ⟨run, ⟨hm, hs⟩, rfl⟩

theorem orphaned_nodup (db : Db) : (orphaned db).Nodup :=
  db.runs.nodup.sublist (List.filter_sublist.map Run.id)

theorem requeueForRetry_of_get {r : RunId} {m : Int} {db : Db} {run : Run}
    (hg : db.runs.get r = some run) :
    ∃ a db', requeueForRetry r m db = .ok (a, db') ∧ db'.runs.get r = some (retried m run) ∧
      (a = none ↔ m ≤ run.provisionAttempts + 1) := by
  obtain ⟨a, ha, ho⟩ :=
    onRun_of_get s!"Run with id {uuidStr r} not found" (retried m) (id_retried m) hg
  refine ⟨_, _, by rw [requeueForRetry, ho], ?_, ?_⟩
  · rw [Db.get_modifyRun, if_pos rfl, hg]
    rfl
  · have hn : (retried m run).provisionAttempts = run.provisionAttempts + 1 := by
      simp only [retried]
      split <;> rfl
    rw [ha, hn]
    split
    · exact iff_of_true rfl ‹_›
    · exact iff_of_false (Option.some_ne_none _) ‹_›

theorem completeRun_ok {r : RunId} {url : String} {result : Result} {now : Time} {db db' : Db}
    {a : RunOf r} (h : completeRun r url result now db = .ok (a, db')) :
    (∃ run, db.runs.get r = some run ∧ a.1 = completed url now run ∧
      db'.runs.get r = some (completed url now run)) ∧
    db.results.insert result = some db'.results := by
  unfold completeRun at h
  split at h
  · cases h
  · rename_i run db₁ ho
    obtain ⟨x, hg, ha, rfl⟩ := onRun_ok ho
    split at h
    · cases h
    · rename_i results hi
      cases h
      refine ⟨⟨x, hg, ha, ?_⟩, hi⟩
      exact (Db.get_modifyRun db r _ (id_completed url now) r).trans (by rw [if_pos rfl, hg]; rfl)

theorem completeRun_other {r r' : RunId} {url : String} {result : Result} {now : Time} {db db' : Db}
    {a : RunOf r} (h : completeRun r url result now db = .ok (a, db')) (hr : r' ≠ r) :
    db'.runs.get r' = db.runs.get r' := by
  unfold completeRun at h
  split at h
  · cases h
  · rename_i run db₁ ho
    obtain ⟨x, -, -, rfl⟩ := onRun_ok ho
    split at h
    · cases h
    · cases h
      exact (Db.get_modifyRun db r _ (id_completed url now) r').trans (if_neg hr)

theorem completeRun_fresh {r : RunId} {url : String} {result : Result} {now : Time} {db db' : Db}
    {a : RunOf r} (h : completeRun r url result now db = .ok (a, db')) :
    db.results.get result.runId = none :=
  Table.get_eq_none.2 fun x hx e =>
    (Table.rows_insert (completeRun_ok h).2).2 (List.mem_map.2 ⟨x, hx, e⟩)

theorem completeRun_of_fresh {r : RunId} (url : String) {result : Result} (now : Time) {db : Db}
    {run : Run} (hg : db.runs.get r = some run) (hr : db.results.get result.runId = none) :
    ∃ a db', completeRun r url result now db = .ok (a, db') ∧ db'.status r = some .done ∧
      db'.nodes = db.nodes := by
  obtain ⟨a, -, ho⟩ := onRun_of_get s!"Run {uuidStr r} not found" (completed url now)
    (id_completed url now) hg
  obtain ⟨u, hu⟩ := Table.insert_of_get hr
  refine ⟨a, { db.modifyRun r (completed url now) (id_completed url now) with results := u },
    ?_, ?_, rfl⟩
  · rw [completeRun, ho]
    simp only [Db.modifyRun_results, hu]
  · exact (Db.status_modifyRun db r (completed url now) (id_completed url now) r).trans
      (by rw [if_pos rfl, hg]; rfl)

theorem get_onRun {r : RunId} (missing : String) (f : Run → Run) (hf) {db : Db} {run : Run}
    (hg : db.runs.get r = some run) :
    ∃ a db', onRun r missing f hf db = .ok (a, db') ∧ db'.runs.get r = some (f run) := by
  obtain ⟨a, -, ho⟩ := onRun_of_get missing f hf hg
  exact ⟨a, _, ho, by rw [Db.get_modifyRun, if_pos rfl, hg]; rfl⟩

theorem status_onRun {r : RunId} (missing : String) (f : Run → Run) (hf) {db : Db} {run : Run}
    (hg : db.runs.get r = some run) :
    ∃ a db', onRun r missing f hf db = .ok (a, db') ∧ db'.status r = some (f run).status ∧
      db'.nodes = db.nodes := by
  obtain ⟨a, -, ho⟩ := onRun_of_get missing f hf hg
  exact ⟨a, _, ho, by rw [Db.status_modifyRun, if_pos rfl, hg]; rfl, rfl⟩

theorem setFailed_of_get {r : RunId} (t : Time) (msg : Option String) {db : Db} {run : Run}
    (hg : db.runs.get r = some run) : ∃ a db', setFailed r t msg db = .ok (a, db') ∧
      db'.status r = some .failed ∧ db'.nodes = db.nodes := status_onRun _ _ _ hg

theorem completeRun_of_none {r : RunId} (url : String) (result : Result) (now : Time) {db : Db}
    (hg : db.runs.get r = none) : completeRun r url result now db =
      .error (.valueError s!"Run {uuidStr r} not found") := by
  rw [completeRun, onRun_of_none _ _ _ hg]

theorem completeRun_conflict {r : RunId} (url : String) {result : Result} (now : Time) {db : Db}
    {run : Run} (hg : db.runs.get r = some run) (hr : db.results.get result.runId ≠ none) :
    completeRun r url result now db = .error .integrityError := by
  obtain ⟨a, -, ho⟩ := onRun_of_get s!"Run {uuidStr r} not found" (completed url now)
    (id_completed url now) hg
  rw [completeRun, ho]
  simp only [Db.modifyRun_results, Table.insert_of_mem hr]

theorem completeRun_congr {r : RunId} (url : String) {result : Result} (now : Time) {db d : Db}
    (hid : result.runId = r) (hruns : db.runs.get r = d.runs.get r)
    (hresults : db.results.get r = d.results.get r) :
    (∃ x, completeRun r url result now db = .error x ∧
      completeRun r url result now d = .error x) ∨
    ∃ a db' d', completeRun r url result now db = .ok (a, db') ∧
      completeRun r url result now d = .ok (a, d') ∧ db'.runs.get r = d'.runs.get r ∧
      db'.results.get r = d'.results.get r := by
  subst hid
  cases hg : d.runs.get result.runId with
  | none =>
    exact .inl ⟨_, completeRun_of_none _ _ _ (hruns.trans hg), completeRun_of_none _ _ _ hg⟩
  | some run =>
    by_cases hr : d.results.get result.runId = none
    · obtain ⟨a, db', ho, -⟩ := completeRun_of_fresh url now (hruns.trans hg) (hresults.trans hr)
      obtain ⟨a', d', ho', -⟩ := completeRun_of_fresh url now hg hr
      obtain ⟨⟨x, hx, ha, hd⟩, hi⟩ := completeRun_ok ho
      obtain ⟨⟨y, hy, ha', hd'⟩, hi'⟩ := completeRun_ok ho'
      obtain rfl : x = y := Option.some.inj ((hx.symm.trans hruns).trans hy)
      obtain rfl : a = a' := Subtype.ext (ha.trans ha'.symm)
      refine .inr ⟨a, db', d', ho, ho', hd.trans hd'.symm, ?_⟩
      rw [Table.get_insert hi, Table.get_insert hi', if_pos rfl, if_pos rfl]
    · exact .inl ⟨_, completeRun_conflict _ _ (hruns.trans hg) (fun h => hr (hresults ▸ h)),
        completeRun_conflict _ _ hg hr⟩

end RunRepository
end GrillPlatform
