import GrillPlatform.Grounded

/-! From the payload to the leaderboard. A runner posts the one results file it has, however often
it retries; then everything published of a run is what that file says, whatever overlaps. -/

namespace GrillPlatform
open Coroutine RunRepository
variable {cfg : Config} {payload : RunId → String}

theorem Puts.jsonl_inv {n : TaskName} {h : History} {key : S3Key} {text : String}
    (hp : Puts cfg n h key (.jsonl text)) : ∃ run : Run,
      n = .request (.complete run.id text) ∧ h.found run ∧ key = run.resultsKey := by
  generalize hbody : S3Body.jsonl text = body at hp
  cases hp with
  | results hf hr =>
    cases hbody
    exact ⟨_, rfl, hf, rfl⟩
  | _ => cases hbody

/-- Every completion of a run that arrives brings the payload of the run. -/
def OnePayload (payload : RunId → String) (_ : System cfg) : Step cfg → Prop
  | .arrive (.request (.complete r jsonl)) => jsonl = payload r
  | _ => True

instance OnePayload.decidable (p : System cfg) : (l : Step cfg) →
    Decidable (OnePayload payload p l)
  | .run _ _ | .crash _ => isTrue trivial
  | .arrive n =>
    match n with
    | .request (.complete r jsonl) => inferInstanceAs (Decidable (jsonl = payload r))
    | .request (.createRun _) | .request (.fail _ _) | .request (.setPhase _ _)
    | .request (.attachLogs _ _) | .request (.registerNode _ _) | .request (.deregisterNode _)
    | .request (.submit _ _) | .pollingLoop | .pollTick | .handleQueuedRun _ _ | .releaseNode _
    | .recoverOrphanedProvisioningRun _ | .abortStuckRunning _ _ | .abortStuckProvisioning _ =>
      isTrue trivial

/-- The result is what the payload of its run aggregates to, and there is an object to look at. -/
def Result.from (cfg : Config) (payload : RunId → String) (w : World) (result : Result) : Prop :=
  ∃ run, w.db.runs.get result.runId = some run ∧ (w.s3 run.resultsKey).isSome ∧
    aggregate cfg.llmGrill (payload result.runId) run = .ok result

/-- The entry is that of a run with a result, with the breakdown of the payload of the run. -/
def Derived (cfg : Config) (payload : RunId → String) (db : Db) (entry : Json) : Prop :=
  ∃ run result perConcurrency t, db.runs.get run.id = some run ∧
    db.results.get run.id = some result ∧
    aggregatePerConcurrency cfg.llmGrill (payload run.id) = .ok perConcurrency ∧
    entry = leaderboardEntry run result perConcurrency t

/-- What is published comes from the payloads. -/
structure Faithful (cfg : Config) (payload : RunId → String) (w : World) : Prop where
  stored : ∀ s engine r jsonl, w.s3 (.runResults s engine r) = some (.jsonl jsonl) →
    jsonl = payload r
  latest : ∀ s engine jsonl, w.s3 (.latestResults s engine) = some (.jsonl jsonl) →
    ∃ r run, w.db.runs.get r = some run ∧ slug run.model = s ∧ run.engine = engine ∧
      jsonl = payload r
  results : ∀ r result, w.db.results.get r = some result → result.from cfg payload w
  listed : ∀ entries, w.s3 .leaderboard = some (.leaderboard entries) →
    ∀ entry ∈ entries, Derived cfg payload w.db entry

/-- What the answers of a completion have established beyond the references. -/
def Op.derives (cfg : Config) (payload : RunId → String) (w : World) :
    (op : Op) → op.Resp → Prop
  | .db (.completeRun r _ result), .ok _ => w.db.results.get r = some result
  | .s3 (.getObject .leaderboard), .ok (some (.leaderboard entries)) =>
    ∀ entry ∈ entries, Derived cfg payload w.db entry
  | _, _ => True

def Derives (cfg : Config) (payload : RunId → String) (w : World) (x : sig.Answered) : Prop :=
  Grounds w x ∧ Op.derives cfg payload w x.1 x.2

theorem aggregate_congr {L : LlmGrill} {jsonl : String} {run run' : Run}
    (ho : run'.origin = run.origin) (hid : run'.id = run.id) :
    aggregate L jsonl run' = aggregate L jsonl run := by
  simp only [Run.origin, Prod.mk.injEq] at ho
  obtain ⟨hm, -, he, hg, -⟩ := ho
  rw [aggregate, aggregate, hm, he, hg, hid]

theorem leaderboardEntry_congr {run run' : Run} {result : Result} {perConcurrency : List Json}
    {t : Time} (ho : run'.origin = run.origin) (hid : run'.id = run.id) :
    leaderboardEntry run' result perConcurrency t =
      leaderboardEntry run result perConcurrency t := by
  simp only [Run.origin, Prod.mk.injEq] at ho
  obtain ⟨hm, -, he, -⟩ := ho
  rw [leaderboardEntry, leaderboardEntry, hm, he, hid]

section
variable {p : System cfg} {i : Nat} {n : (orchestrator cfg).Name} {op : sig.Op}
  {next : sig.Resp op → Prog sig Exc Unit} {e : (orchestrator cfg).Env}

theorem result_kept {r : RunId} {result : Result} (h : p.world.db.results.get r = some result) :
    (p.after i n op next e).world.db.results.get r = some result := by
  rcases System.after_db p i e n op next with he | ⟨c, a, -, -, htx⟩
  · rwa [he]
  · rcases c.resultStep htx with he | ⟨_, _, x, -, hi, -⟩
    · rwa [he]
    · have hne : x.runId ≠ r := fun hk => (Table.rows_insert hi).2
        (List.mem_map.2 ⟨result, (Table.get_eq_some.1 h).1, (Table.key_of_get h).trans hk.symm⟩)
      rwa [Table.get_insert hi, if_neg hne]

theorem from_kept {result : Result} (h : result.from cfg payload p.world) :
    result.from cfg payload (p.after i n op next e).world := by
  obtain ⟨run, hg, hs, ha⟩ := h
  obtain ⟨run', hg', ho⟩ := origin_after hg
  have hid := (Table.key_of_get hg').trans (Table.key_of_get hg).symm
  refine ⟨run', hg', ?_, (aggregate_congr ho hid).trans ha⟩
  rw [Run.resultsKey_congr ho hid]
  exact isSome_after hs

theorem derived_kept {entry : Json} (h : Derived cfg payload p.world.db entry) :
    Derived cfg payload (p.after i n op next e).world.db entry := by
  obtain ⟨run, result, perConcurrency, t, hg, hr, hp, rfl⟩ := h
  obtain ⟨run', hg', ho⟩ := origin_after hg
  have hid := Table.key_of_get hg'
  refine ⟨run', result, perConcurrency, t, ?_, ?_, ?_, (leaderboardEntry_congr ho hid).symm⟩
  · rwa [hid]
  · rw [hid]
    exact result_kept hr
  · rwa [hid]

theorem derives_kept {x : sig.Answered} (hx : Derives cfg payload p.world x) :
    Derives cfg payload (p.after i n op next e).world x := by
  refine ⟨grounds_kept hx.1, ?_⟩
  obtain ⟨op', a⟩ := x
  have hx := hx.2
  unfold Op.derives at hx ⊢
  split at hx
  · exact result_kept hx
  · exact fun entry he => derived_kept (hx entry he)
  · trivial

theorem derives_new (hG : Grounded p.world) (hI : Faithful cfg payload p.world)
    (hr : ∀ r url result, (op : Op) = .db (.completeRun r url result) → result.runId = r) :
    Derives cfg payload (p.after i n op next e).world
      ⟨op, ((orchestrator cfg).handle i n op e p.world).1⟩ := by
  refine ⟨grounds_new hG hr, ?_⟩
  cases op with
  | db q =>
    cases q with
    | completeRun r url result =>
      show Op.derives _ _ _ (.db (.completeRun r url result))
        ((Query.completeRun r url result).run e (p.world.clock + e.elapsed) p.world.db).1
      match ha : ((Query.completeRun r url result).run e
        (p.world.clock + e.elapsed) p.world.db).1 with
      | .error x => trivial
      | .ok done =>
        have hi := (completeRun_ok (Query.run_ok ha)).2
        obtain rfl := hr r url result rfl
        have hget := Table.get_insert hi result.runId
        rw [if_pos rfl] at hget
        exact hget
    | _ => trivial
  | s3 q =>
    cases q with
    | getObject key =>
      cases key with
      | leaderboard =>
        show Op.derives _ _ _ (.s3 (.getObject .leaderboard))
          ((S3Call.getObject .leaderboard).run e p.world.s3).1
        match ha : ((S3Call.getObject .leaderboard).run e p.world.s3).1 with
        | .ok (some (.leaderboard entries)) =>
          exact fun entry he => derived_kept (hI.listed entries (getObject_ok ha).symm entry he)
        | .ok (some (.jsonl _)) | .ok (some (.log _)) | .ok (some (.completedRun _))
        | .ok (some (.models _)) | .ok (some (.scenarios _)) | .ok (some (.engines _)) | .ok none
        | .error _ => trivial
      | _ => trivial
    | _ => trivial
  | _ => trivial

/-! ## One call -/

theorem stored_payload {h : History} (hI : Faithful cfg payload p.world)
    (hn : ∀ r jsonl, (n : TaskName) = .request (.complete r jsonl) → jsonl = payload r)
    (hr : rests cfg n h op) {s : String} {engine : Engine} {r : RunId} {jsonl : String}
    (hk : (p.after i n op next e).world.s3 (.runResults s engine r) = some (.jsonl jsonl)) :
    jsonl = payload r := by
  rcases object_after hk with hold | rfl | ⟨source, rfl, -⟩
  · exact hI.stored s engine r jsonl hold
  · obtain ⟨run, rfl, -, hkey⟩ := Puts.jsonl_inv hr
    obtain ⟨-, -, rfl⟩ := S3Key.runResults.inj hkey
    exact hn _ _ rfl
  · obtain ⟨run, jsonl, -, -, -, hkey, -⟩ := hr
    cases hkey

theorem latest_payload {h : History} (hI : Faithful cfg payload p.world)
    (hfacts : ∀ x ∈ h, Derives cfg payload p.world x) (hr : rests cfg n h op) {s : String}
    {engine : Engine} {jsonl : String}
    (hk : (p.after i n op next e).world.s3 (.latestResults s engine) = some (.jsonl jsonl)) :
    ∃ r run, (p.after i n op next e).world.db.runs.get r = some run ∧ slug run.model = s ∧
      run.engine = engine ∧ jsonl = payload r := by
  have hkept : ∀ {r run}, p.world.db.runs.get r = some run →
      ∃ run', (p.after i n op next e).world.db.runs.get r = some run' ∧
        run'.model = run.model ∧ run'.engine = run.engine := by
    intro r run hg
    obtain ⟨run', hg', ho⟩ := origin_after hg
    simp only [Run.origin, Prod.mk.injEq] at ho
    exact ⟨run', hg', ho.1, ho.2.2.1⟩
  rcases object_after hk with hold | rfl | ⟨source, rfl, hsource⟩
  · obtain ⟨r, run, hg, rfl, rfl, rfl⟩ := hI.latest s engine jsonl hold
    obtain ⟨run', hg', hm, he⟩ := hkept hg
    exact ⟨r, run', hg', by rw [hm], he, rfl⟩
  · obtain ⟨run, -, -, hkey⟩ := Puts.jsonl_inv hr
    cases hkey
  · obtain ⟨run, jsonl', -, hf, -, hkey, rfl⟩ := hr
    obtain ⟨rfl, rfl⟩ := S3Key.latestResults.inj hkey
    obtain ⟨row, hg, ho⟩ := (hfacts _ hf).1.1
    simp only [Run.origin, Prod.mk.injEq] at ho
    obtain ⟨row', hg', hm, he⟩ := hkept hg
    exact ⟨run.id, row', hg', by rw [hm, ho.1], he.trans ho.2.2.1, hI.stored _ _ _ _ hsource⟩

theorem results_payload {h : History} (hI : Faithful cfg payload p.world)
    (hfacts : ∀ x ∈ h, Derives cfg payload p.world x)
    (hn : ∀ r jsonl, (n : TaskName) = .request (.complete r jsonl) → jsonl = payload r)
    (hr : rests cfg n h op) {r : RunId} {result : Result}
    (hg : (p.after i n op next e).world.db.results.get r = some result) :
    result.from cfg payload (p.after i n op next e).world := by
  have hold : p.world.db.results.get r = some result →
      result.from cfg payload (p.after i n op next e).world :=
    fun h => from_kept (hI.results r result h)
  rcases System.after_db p i e n op next with he | ⟨c, a, rfl, -, htx⟩
  · rw [he] at hg
    exact hold hg
  rcases c.resultStep htx with he | ⟨r', url, result', rfl, hi, -⟩
  · rw [he] at hg
    exact hold hg
  · rw [Table.get_insert hi] at hg
    split at hg
    · cases hg
      -- the result that is inserted is that of the payload the task brought
      obtain ⟨run, jsonl, rfl, hname, hup, ha, -⟩ := hr
      obtain ⟨row, hrow, ho, hid⟩ := found_row (fun x hx => (hfacts x hx).1) hup.found
      have hrun := (describes_of_aggregate ha).1
      have hstored : (p.world.s3 run.resultsKey).isSome := (hfacts _ hup.stored).1.2
      refine from_kept ⟨row, by rwa [hrun], ?_, ?_⟩
      · rwa [Run.resultsKey_congr ho hid]
      · rw [aggregate_congr ho hid, hrun, ← hn _ _ hname]
        exact ha
    · exact hold hg

theorem listed_payload {h : History} (hI : Faithful cfg payload p.world)
    (hfacts : ∀ x ∈ h, Derives cfg payload p.world x)
    (hn : ∀ r jsonl, (n : TaskName) = .request (.complete r jsonl) → jsonl = payload r)
    (hr : rests cfg n h op) {entries : List Json}
    (hk : (p.after i n op next e).world.s3 .leaderboard = some (.leaderboard entries))
    {entry : Json} (hmem : entry ∈ entries) :
    Derived cfg payload (p.after i n op next e).world.db entry := by
  rcases object_after hk with hold | rfl | ⟨source, rfl, -⟩
  · exact derived_kept (hI.listed entries hold entry hmem)
  · obtain ⟨run, jsonl, result, done, t, current, old, perConcurrency, hname, hc, hpc, hget, he,
      rfl⟩ := Puts.leaderboard_inv hr
    refine derived_kept ?_
    rcases List.mem_append.1 hmem with hmem | hmem
    · have hold : entry ∈ old := (List.mem_filter.1 hmem).1
      rcases leaderboardEntries_ok he with rfl | rfl
      · cases hold
      · exact (hfacts _ hget).2 entry hold
    · rw [List.mem_singleton.1 hmem]
      obtain ⟨-, row, hrow, ho⟩ := (hfacts _ hc.committed).1.2
      have hid := (Table.key_of_get hrow).trans done.2.symm
      have hresult : p.world.db.results.get run.id = some result := (hfacts _ hc.committed).2
      rw [hn _ _ hname] at hpc
      refine ⟨row, result, perConcurrency, t, ?_, ?_, ?_, (leaderboardEntry_congr ho hid).symm⟩
      · rwa [hid, done.2]
      · rwa [hid, done.2]
      · rwa [hid, done.2]
  · obtain ⟨run, jsonl, -, -, -, hkey, -⟩ := hr
    cases hkey

theorem faithful_after {h : History} (hI : Faithful cfg payload p.world)
    (hfacts : ∀ x ∈ h, Derives cfg payload p.world x)
    (hn : ∀ r jsonl, (n : TaskName) = .request (.complete r jsonl) → jsonl = payload r)
    (hr : rests cfg n h op) : Faithful cfg payload (p.after i n op next e).world where
  stored _ _ _ _ hk := stored_payload hI hn hr hk
  latest _ _ _ hk := latest_payload hI hfacts hr hk
  results _ _ hg := results_payload hI hfacts hn hr hg
  listed _ hk _ hmem := listed_payload hI hfacts hn hr hk hmem

end

theorem not_may_createRequest {n : TaskName} {req : Request} :
    ¬ n.may cfg (.createTask (.request req)) := by
  cases n with
  | request req' =>
    cases req' with
    | complete | fail => exact fun h => nomatch h
    | _ => exact fun h => h
  | _ => exact fun h => h

theorem complete_name {w : World} {p : System cfg}
    (h : Pool.Reach (OnePayload payload) (System.start cfg w) p) {i : Nat}
    {t : Task (orchestrator cfg)} (ht : p.tasks[i]? = some t) {r : RunId} {jsonl : String}
    (hn : t.name = .request (.complete r jsonl)) : jsonl = payload r := by
  have hnames := h.names
    (P := fun m => ∀ r jsonl, m = TaskName.request (.complete r jsonl) → jsonl = payload r) ?_
    ?_ ?_ ht
  · exact hnames r jsonl hn
  · rintro _ _ ⟨⟩
  · rintro p m hC - r jsonl rfl
    exact hC
  · intro q j m op next e m' hq hj hcreate r jsonl hm
    subst hm
    cases op with
    | createTask m' =>
      cases hcreate
      exact (not_may_createRequest (System.may_of_call hq hj)).elim
    | _ => cases hcreate

theorem faithful_of_reach {w : World} {p : System cfg} (hw : Grounded w)
    (hw' : Faithful cfg payload w) (h : Pool.Reach (OnePayload payload) (System.start cfg w) p) :
    Faithful cfg payload p.world := by
  refine (Pool.Reach.rested (rests cfg) (Derives cfg payload) h
    (Faithful cfg payload) (body_disciplined cfg)
    ⟨hw'.stored, hw'.latest, hw'.results, hw'.listed⟩ ?_ fun _ _ _ hI _ =>
      ⟨hI.stored, hI.latest, hI.results, hI.listed⟩).1
  intro q i e n op next h hq hI hfacts hr hi _
  refine ⟨faithful_after hI hfacts (fun r jsonl hn => complete_name hq hi hn) hr,
    derives_new (grounded_of_reach hw hq) hI ?_, fun _ => derives_kept⟩
  rintro r url result rfl
  obtain ⟨run, jsonl, rfl, -, -, hresult, -⟩ := hr
  exact (describes_of_aggregate hresult).1

theorem Faithful.published {w : World} (hI : Faithful cfg payload w) (hG : Grounded w) {r : RunId}
    {result : Result} (hg : w.db.results.get r = some result) :
    ∃ run, w.db.runs.get r = some run ∧ w.s3 run.resultsKey = some (.jsonl (payload r)) ∧
      aggregate cfg.llmGrill (payload r) run = .ok result := by
  obtain ⟨run, hrun, hs, ha⟩ := hI.results r result hg
  rw [Table.key_of_get hg] at hrun ha
  refine ⟨run, hrun, ?_, ha⟩
  obtain ⟨body, hbody⟩ := Option.isSome_iff_exists.1 hs
  have hkind := hG.kinds _ _ hbody
  have hid := Table.key_of_get hrun
  unfold Run.resultsKey runResultsKey at hbody hkind ⊢
  rw [hid] at hbody hkind ⊢
  cases body with
  | jsonl text => rw [hbody, hI.stored _ _ _ _ hbody]
  | _ => exact hkind.elim

/-- What is published of a run is what its payload says: the stored object, the latest results of
its pair, its result row and its entry of the leaderboard, in every execution and however often the
payload is posted. -/
theorem published_from_payload {w : World} {p : System cfg} (hw : Grounded w)
    (hw' : Faithful cfg payload w) (h : Pool.Reach (OnePayload payload) (System.start cfg w) p) :
    Faithful cfg payload p.world ∧ ∀ r result, p.world.db.results.get r = some result →
      ∃ run, p.world.db.runs.get r = some run ∧
        p.world.s3 run.resultsKey = some (.jsonl (payload r)) ∧
        aggregate cfg.llmGrill (payload r) run = .ok result := by
  have hI := faithful_of_reach hw hw' h
  exact ⟨hI, fun r result hg => hI.published (grounded_of_reach hw h) hg⟩

theorem faithful_sample (cfg : Config) (payload : RunId → String) :
    Faithful cfg payload Sample.world where
  stored _ _ _ _ h := by cases h
  latest _ _ _ h := by cases h
  results _ _ h := by cases h
  listed _ h := by cases h

/-- The second POST has uploaded and copied its payload, and its commit was refused. -/
theorem published_from_payload_of_postedTwice :
    let p := Sample.start.play (Sample.postedTwice ++ Sample.steps 6 3)
    p.Ended 5 ∧ p.Ended 6 ∧ ∃ run, p.world.db.runs.get 7 = some run ∧
      p.world.s3 run.resultsKey = some (.jsonl "") := by
  intro p
  obtain ⟨-, h⟩ := published_from_payload grounded_sample
    (faithful_sample Sample.config fun _ => "")
    (Pool.reach_play_of_obeys Sample.start (Sample.postedTwice ++ Sample.steps 6 3)
      (by decide +kernel) (by decide +kernel))
  obtain ⟨result, hresult⟩ := Option.isSome_iff_exists.1
    (by decide +kernel : (p.world.db.results.get 7).isSome)
  refine ⟨by decide +kernel, by decide +kernel, ?_⟩
  obtain ⟨run, hg, hs, -⟩ := h 7 result hresult
  exact ⟨run, hg, hs⟩

end GrillPlatform
