import GrillPlatform.Discipline
import GrillPlatform.Published

/-! What a row of `runs` and a row of `results` say, in every execution: which columns a status
implies, which times they hold, and that a result describes its run. -/

namespace GrillPlatform
open Coroutine RunRepository
variable {cfg : Config}

/-- The columns that are written when a run is inserted, and never again. -/
def Run.origin (run : Run) : String × Int × Engine × GpuType × String × Option String × Time :=
  (run.model, run.modelSizeB, run.engine, run.gpuTypeRequired, run.scenarioPath, run.ggufFile,
    run.createdAt)

def Run.dated (run : Run) (t : Time) : Prop :=
  run.createdAt = t ∨ run.provisioningStartedAt = some t ∨ run.phaseUpdatedAt = some t ∨
    run.startedAt = some t ∨ run.endedAt = some t

/-- What the row of a run says, where `stored` tells whether the run has a result. -/
structure Run.Coherent (now : Time) (stored : Bool) (run : Run) : Prop where
  provisioning : run.status = .provisioning → run.provisioningStartedAt.isSome
  running : run.status = .running → run.startedAt.isSome
  done : run.status = .done → run.endedAt.isSome ∧ stored
  failed : run.status = .failed → run.endedAt.isSome ∧ run.errorMessage.isSome
  phase : run.currentPhase.isSome = run.phaseUpdatedAt.isSome
  results : run.resultsUrl = if stored then some run.resultsKey.text else none
  past : ∀ t, run.dated t → t ≤ now

/-- The copied columns of a result are those of the run. -/
def Result.describes (result : Result) (run : Run) : Prop :=
  result.runId = run.id ∧ result.model = run.model ∧ result.engine = run.engine.value ∧
    result.gpuType = run.gpuTypeRequired

/-- Every run is coherent, and every result belongs to a run it describes. -/
structure Db.Sound (now : Time) (db : Db) : Prop where
  runs : ∀ r run, db.runs.get r = some run → run.Coherent now (db.results.get r).isSome
  results : ∀ r result, db.results.get r = some result →
    ∃ run, db.runs.get r = some run ∧ result.describes run

theorem describes_of_aggregate {L : LlmGrill} {jsonl : String} {run : Run} {result : Result}
    (h : aggregate L jsonl run = .ok result) : result.describes run := by
  obtain ⟨results, -, h⟩ := exceptBind_ok h
  obtain ⟨total, -, h⟩ := exceptBind_ok h
  obtain ⟨metrics, -, h⟩ := exceptBind_ok h
  cases h
  exact ⟨rfl, rfl, rfl, rfl⟩

theorem Run.resultsKey_congr {run run' : Run} (ho : run'.origin = run.origin)
    (hid : run'.id = run.id) : run'.resultsKey = run.resultsKey := by
  simp only [origin, Prod.mk.injEq] at ho
  rw [resultsKey, resultsKey, ho.1, ho.2.2.1, hid]

theorem Result.describes_congr {result : Result} {run run' : Run} (ho : run'.origin = run.origin)
    (hid : run'.id = run.id) (h : result.describes run) : result.describes run' := by
  simp only [Run.origin, Prod.mk.injEq] at ho
  obtain ⟨hr, hm, he, hg⟩ := h
  exact ⟨hr.trans hid.symm, hm.trans ho.1.symm, he.trans (congrArg _ ho.2.2.1.symm),
    hg.trans ho.2.2.2.1.symm⟩

theorem RowWrite.origin {now : Time} {q : Query} {run run' : Run} (h : RowWrite now q run run') :
    run'.origin = run.origin := by
  cases h <;> rfl

/-- What a transaction needs to keep the rows sound. -/
def Query.backed (now : Time) (db : Db) : Query → Prop
  | .setRunning _ t => t ≤ now
  | .setFailed _ t msg => t ≤ now ∧ msg.isSome
  | .runCreate run => run.createdAt ≤ now ∧ run.fresh
  | .completeRun r url result => ∀ run, db.runs.get r = some run →
      url = run.resultsKey.text ∧ result.describes run
  | _ => True

theorem RowWrite.dated {now : Time} {q : Query} {db : Db} {run run' : Run}
    (h : RowWrite now q run run') (hq : q.backed now db) {t : Time} (ht : run'.dated t) :
    run.dated t ∨ t ≤ now := by
  have hnow : ∀ {t' : Time}, some t' = some t → t' ≤ now → t ≤ now := fun he hle =>
    Option.some.inj he ▸ hle
  obtain ht | ht | ht | ht | ht := ht
  · exact .inl (.inl (by cases h <;> exact ht))
  · cases h with
    | claim => exact .inr (hnow ht le_rfl)
    | _ => exact .inl (.inr (.inl ht))
  · cases h with
    | phase => exact .inr (hnow ht le_rfl)
    | _ => exact .inl (.inr (.inr (.inl ht)))
  · cases h with
    | running => exact .inr (hnow ht hq)
    | _ => exact .inl (.inr (.inr (.inr (.inl ht))))
  · cases h with
    | complete | fail | reapRunning | reapProvisioning => exact .inr (hnow ht le_rfl)
    | failed => exact .inr (hnow ht hq.1)
    | _ => exact .inl (.inr (.inr (.inr (.inr ht))))

theorem Run.Coherent.write {now : Time} {stored : Bool} {q : Query} {db : Db} {run run' : Run}
    (h : RowWrite now q run run') (hc : run.Coherent now stored) (hq : q.backed now db)
    (hne : ∀ r url result, q ≠ .completeRun r url result) : run'.Coherent now stored := by
  have hpast : ∀ t, run'.dated t → t ≤ now :=
    fun t ht => (h.dated hq ht).elim (hc.past t) fun h => h
  cases h with
  | claim => exact ⟨fun _ => rfl, nofun, nofun, nofun, hc.phase, hc.results, hpast⟩
  | complete => exact absurd rfl (hne _ _ _)
  | running => exact ⟨nofun, fun _ => rfl, nofun, nofun, hc.phase, hc.results, hpast⟩
  | fail | reapRunning | reapProvisioning =>
    exact ⟨nofun, nofun, nofun, fun _ => ⟨rfl, rfl⟩, hc.phase, hc.results, hpast⟩
  | failed =>
    refine ⟨nofun, nofun, nofun, fun _ => ⟨rfl, ?_⟩, hc.phase, hc.results, hpast⟩
    rw [if_pos hq.2]
    exact hq.2
  | requeue => exact ⟨nofun, nofun, nofun, nofun, hc.phase, hc.results, hpast⟩
  | phase => exact ⟨hc.provisioning, hc.running, hc.done, hc.failed, rfl, hc.results, hpast⟩
  | logs | exhausted =>
    exact ⟨hc.provisioning, hc.running, hc.done, hc.failed, hc.phase, hc.results, hpast⟩

theorem Run.Coherent.complete {now : Time} {stored : Bool} {run : Run}
    (hc : run.Coherent now stored) :
    (completed run.resultsKey.text now run).Coherent now true := by
  refine ⟨nofun, nofun, fun _ => ⟨rfl, rfl⟩, nofun, hc.phase, rfl, fun t ht => ?_⟩
  obtain ht | ht | ht | ht | ht := ht
  · exact hc.past t (.inl ht)
  · exact hc.past t (.inr (.inl ht))
  · exact hc.past t (.inr (.inr (.inl ht)))
  · exact hc.past t (.inr (.inr (.inr (.inl ht))))
  · exact (Option.some.inj ht).ge

theorem Run.Coherent.later {now now' : Time} {stored : Bool} {run : Run}
    (hc : run.Coherent now stored) (hle : now ≤ now') : run.Coherent now' stored :=
  { hc with past := fun t ht => (hc.past t ht).trans hle }

theorem Run.Coherent.fresh {now : Time} {run : Run} (hf : run.fresh) (hle : run.createdAt ≤ now) :
    run.Coherent now false := by
  obtain ⟨hs, hu, -, hp, hcp, hpu, hst, he⟩ := hf
  have hqueued : ∀ s, RunStatus.queued ≠ s → run.status ≠ s := fun s hne h => hne (hs.symm.trans h)
  refine ⟨fun h => absurd h (hqueued _ nofun), fun h => absurd h (hqueued _ nofun),
    fun h => absurd h (hqueued _ nofun), fun h => absurd h (hqueued _ nofun),
    by rw [hcp, hpu]; rfl, hu, fun t ht => ?_⟩
  obtain ht | ht | ht | ht | ht := ht
  · exact ht ▸ hle
  · cases hp.symm.trans ht
  · cases hpu.symm.trans ht
  · cases hst.symm.trans ht
  · cases he.symm.trans ht

theorem Db.Sound.later {now now' : Time} {db : Db} (hs : db.Sound now) (hle : now ≤ now') :
    db.Sound now' := ⟨fun r run hg => (hs.runs r run hg).later hle, hs.results⟩

theorem Db.Sound.described {now : Time} {q : Query} {pick : List RunId} {db db' : Db} {a : q.Resp}
    (h : q.tx pick now db = .ok (a, db')) (hs : db.Sound now) {r : RunId} {result : Result}
    (hr : db.results.get r = some result) :
    ∃ run, db'.runs.get r = some run ∧ result.describes run := by
  obtain ⟨run, hg, hd⟩ := hs.results r result hr
  rcases q.rowStep h r with he | ⟨x, y, hx, hy, hw⟩ | ⟨_, _, _, hn, _⟩
  · exact ⟨run, he.trans hg, hd⟩
  · cases hx.symm.trans hg
    exact ⟨y, hy, Result.describes_congr hw.origin hw.id_eq.1 hd⟩
  · cases hn.symm.trans hg

theorem Db.Sound.tx {now : Time} {q : Query} {pick : List RunId} {db db' : Db} {a : q.Resp}
    (h : q.tx pick now db = .ok (a, db')) (hs : db.Sound now) (hq : q.backed now db) :
    db'.Sound now := by
  by_cases hc : ∃ r url result, q = .completeRun r url result
  · obtain ⟨r, url, result, rfl⟩ := hc
    obtain ⟨⟨run, hg, -, hg'⟩, hi⟩ := completeRun_ok h
    obtain ⟨rfl, hd⟩ := hq run hg
    obtain rfl : result.runId = r := hd.1.trans (Table.key_of_get hg)
    have hstored := fun k => Table.get_insert hi k
    refine ⟨fun r' run' hr' => ?_, fun r' result' hr' => ?_⟩
    · rw [hstored]
      by_cases hrr : result.runId = r'
      · subst hrr
        cases hg'.symm.trans hr'
        rw [if_pos rfl]
        exact (hs.runs _ run hg).complete
      · rw [if_neg hrr]
        exact hs.runs r' run' ((completeRun_other h (Ne.symm hrr)).symm.trans hr')
    · rw [hstored] at hr'
      split at hr'
      · rename_i hrr
        subst hrr
        cases hr'
        exact ⟨_, hg', hd⟩
      · exact hs.described h hr'
  · have hne : ∀ r url result, q ≠ .completeRun r url result := fun r url result hq =>
      hc ⟨r, url, result, hq⟩
    have hresults : db'.results = db.results := by
      rcases q.resultStep h with he | ⟨r, url, result, rfl, -⟩
      · exact he
      · exact absurd rfl (hne r url result)
    refine ⟨fun r run hr => ?_, fun r result hr => ?_⟩
    · rw [hresults]
      rcases q.rowStep h r with he | ⟨x, y, hx, hy, hw⟩ | ⟨x, rfl, rfl, hn, hy⟩
      · exact hs.runs r run (he.symm.trans hr)
      · cases hy.symm.trans hr
        exact (hs.runs r x hx).write hw hq hne
      · cases hy.symm.trans hr
        have hnone : db.results.get run.id = none := by
          cases hres : db.results.get run.id with
          | none => rfl
          | some result =>
            obtain ⟨_, hg, -⟩ := hs.results _ _ hres
            cases hn.symm.trans hg
        rw [hnone]
        exact .fresh hq.2 hq.1
    · rw [hresults] at hr
      exact hs.described h hr

/-! ## Every execution -/

/-- What an answer has established: a run that was read is there as it was inserted, and a time that
was read is past. -/
def Op.stands (w : World) : (op : Op) → op.Resp → Prop
  | .db (.runGet r), .ok (some run) =>
    ∃ run', w.db.runs.get r = some run' ∧ run'.origin = run.1.origin
  | .now, t => t ≤ w.clock
  | _, _ => True

def Stands (w : World) (x : sig.Answered) : Prop := Op.stands w x.1 x.2

theorem stands_found {w : World} {h : History} (hfacts : ∀ x ∈ h, Stands w x) {run : Run}
    (hf : h.found run) : ∃ run', w.db.runs.get run.id = some run' ∧ run'.origin = run.origin :=
  hfacts _ hf

theorem stands_clock {w : World} {h : History} (hfacts : ∀ x ∈ h, Stands w x) {t : Time}
    (ht : h.clock t) : t ≤ w.clock := hfacts _ ht

theorem Query.origin_kept {q : Query} {pick : List RunId} {now : Time} {db db' : Db} {a : q.Resp}
    (h : q.tx pick now db = .ok (a, db')) {r : RunId} {run : Run} (hg : db.runs.get r = some run) :
    ∃ run', db'.runs.get r = some run' ∧ run'.origin = run.origin := by
  rcases q.rowStep h r with he | ⟨x, y, hx, hy, hw⟩ | ⟨_, _, _, hn, _⟩
  · exact ⟨run, he.trans hg, rfl⟩
  · cases hx.symm.trans hg
    exact ⟨y, hy, hw.origin⟩
  · cases hn.symm.trans hg

theorem backed_of_rests {w : World} {n : TaskName} {h : History} {q : Query} {now : Time}
    (hfacts : ∀ x ∈ h, Stands w x) (hr : rests cfg n h (.db q)) (hle : w.clock ≤ now) :
    q.backed now w.db := by
  cases q with
  | setRunning r t => exact (stands_clock hfacts hr).trans hle
  | setFailed r t msg => exact ⟨(stands_clock hfacts hr.1).trans hle, hr.2⟩
  | runCreate run => exact ⟨(stands_clock hfacts hr.1).trans hle, hr.2⟩
  | completeRun r url result =>
    obtain ⟨run, jsonl, rfl, -, hup, hresult, rfl⟩ := hr
    intro run' hg
    obtain ⟨x, hx, ho⟩ := stands_found hfacts hup.found
    cases hx.symm.trans hg
    have hid := Table.key_of_get hg
    exact ⟨congrArg _ (Run.resultsKey_congr ho hid).symm,
      Result.describes_congr ho hid (describes_of_aggregate hresult)⟩
  | _ => trivial

section
variable {p : System cfg} {i : Nat} {n : (orchestrator cfg).Name} {op : sig.Op}
  {next : sig.Resp op → Prog sig Exc Unit} {e : (orchestrator cfg).Env}

theorem clock_after : (p.after i n op next e).world.clock = p.world.clock + e.elapsed := by
  cases op <;> rfl

variable (p i n op next e) in
theorem clock_le_after : p.world.clock ≤ (p.after i n op next e).world.clock := by
  rw [clock_after]
  exact Int.le_add_of_nonneg_right (Int.natCast_nonneg _)

theorem origin_after {r : RunId} {run : Run} (hg : p.world.db.runs.get r = some run) :
    ∃ run', (p.after i n op next e).world.db.runs.get r = some run' ∧
      run'.origin = run.origin := by
  rcases System.after_db p i e n op next with he | ⟨c, a, -, -, htx⟩
  · exact ⟨run, by rw [he, hg], rfl⟩
  · exact c.origin_kept htx hg

theorem stands_kept {x : sig.Answered} (hx : Stands p.world x) :
    Stands (p.after i n op next e).world x := by
  obtain ⟨op', a⟩ := x
  unfold Stands Op.stands at hx ⊢
  split at hx
  · obtain ⟨run', hg, ho⟩ := hx
    obtain ⟨run'', hg', ho'⟩ := origin_after hg
    exact ⟨run'', hg', ho'.trans ho⟩
  · exact le_trans hx (clock_le_after ..)
  · trivial

theorem get_of_runGet {r : RunId} {e : Env} {now : Time} {db : Db} {run : RunOf r}
    (h : ((Query.runGet r).run e now db).1 = .ok (some run)) : db.runs.get r = some run.1 := by
  have htx : RunRepository.get r db = .ok (some run, ((Query.runGet r).run e now db).2) :=
    Query.run_ok h
  cases hg : db.runs.get r with
  | none =>
    rw [get_of_none hg] at htx
    cases htx
  | some x =>
    rw [get_of_get hg] at htx
    obtain ⟨hrun, -⟩ := Prod.mk.inj (Except.ok.inj htx)
    cases hrun
    rfl

theorem stands_new : Stands (p.after i n op next e).world
    ⟨op, ((orchestrator cfg).handle i n op e p.world).1⟩ := by
  cases op with
  | db q =>
    cases q with
    | runGet r =>
      show Op.stands _ (.db (.runGet r))
        ((Query.runGet r).run e (p.world.clock + e.elapsed) p.world.db).1
      match ha : ((Query.runGet r).run e (p.world.clock + e.elapsed) p.world.db).1 with
      | .ok (some run) => exact origin_after (get_of_runGet ha)
      | .ok none | .error x => trivial
    | _ => trivial
  | now => exact le_refl (p.world.clock + e.elapsed)
  | _ => trivial

theorem sound_after {h : History} (hI : p.world.db.Sound p.world.clock)
    (hfacts : ∀ x ∈ h, Stands p.world x) (hr : rests cfg n h op) :
    (p.after i n op next e).world.db.Sound (p.after i n op next e).world.clock := by
  have hlater := hI.later (clock_le_after p i n op next e)
  rcases System.after_db p i e n op next with he | ⟨c, a, rfl, -, htx⟩
  · rw [he]
    exact hlater
  · rw [clock_after] at hlater ⊢
    exact hlater.tx htx (backed_of_rests hfacts hr
      (Int.le_add_of_nonneg_right (Int.natCast_nonneg _)))

end

theorem sound_of_reach {C : System cfg → Step cfg → Prop} {w : World} {p : System cfg}
    (hw : w.db.Sound w.clock) (h : Pool.Reach C (System.start cfg w) p) :
    p.world.db.Sound p.world.clock :=
  (Pool.Reach.rested (rests cfg) Stands h (fun w => w.db.Sound w.clock)
    (body_disciplined cfg) hw
    (fun _ _ _ _ _ _ _ _ hI hfacts hr _ _ => ⟨sound_after hI hfacts hr, stands_new, fun _ =>
      stands_kept⟩)
    fun _ _ _ hI _ => hI.later (Int.le_add_of_nonneg_right (Int.natCast_nonneg _))).1

/-- In every execution, whatever the schedule, the failures and the crashes: each run has at least
the columns its status promises, has a results URL exactly if a result is stored for it, and no time
of it is in the future; each result describes its run. -/
theorem rows_sound {w : World} {p : System cfg} (hw : w.db.Sound w.clock)
    (h : System.Reachable (System.start cfg w) p) : p.world.db.Sound p.world.clock :=
  sound_of_reach hw h

theorem sound_empty (now : Time) : Db.empty.Sound now where
  runs _ _ h := by cases h
  results _ _ h := by cases h

theorem rows_sound_of_completed :
    let p := Sample.start.play (Sample.completed 7)
    p.world.db.Sound p.world.clock ∧ p.world.db.status 7 = some .done :=
  ⟨rows_sound (w := Sample.world) (sound_empty 0)
    (Pool.reach_play Sample.start (Sample.completed 7) (by decide)), by decide⟩

end GrillPlatform
