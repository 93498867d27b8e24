import GrillPlatform.Grounded

/-! The other direction of the references: no object without its run. A key is built from a run that
was read, so what is stored under it is of a run of the table, and a result row is inserted only
after the payload of its run has been stored. -/

namespace GrillPlatform
open Coroutine RunRepository
variable {cfg : Config}

/-- A run of the pair is in the table. -/
def Db.knows (db : Db) (s : String) (engine : Engine) (r : RunId) : Prop :=
  ∃ run, db.runs.get r = some run ∧ slug run.model = s ∧ run.engine = engine

/-- The object under the key is that of a run of the pair; what is the latest of a pair is that of a
run whose payload is stored. -/
def S3Key.owned (db : Db) (s3 : S3) : S3Key → Prop
  | .runResults s engine r | .runLogs s engine r => db.knows s engine r
  | .latestResults s engine | .latestMeta s engine =>
    ∃ r, db.knows s engine r ∧ (s3 (.runResults s engine r)).isSome
  | .leaderboard | .models | .scenarios | .engines => True

/-- Every object is that of a run of the table, and every result row that of a run whose payload is
stored. -/
structure Owned (w : World) : Prop where
  objects : ∀ key, (w.s3 key).isSome → key.owned w.db w.s3
  rows : ∀ r, (w.db.results.get r).isSome →
    ∃ run, w.db.runs.get r = some run ∧ (w.s3 run.resultsKey).isSome

section
variable {p : System cfg} {i : Nat} {n : (orchestrator cfg).Name} {op : sig.Op}
  {next : sig.Resp op → Prog sig Exc Unit} {e : (orchestrator cfg).Env} {h : History}

theorem knows_kept {s : String} {engine : Engine} {r : RunId}
    (hk : p.world.db.knows s engine r) : (p.after i n op next e).world.db.knows s engine r := by
  obtain ⟨run, hg, rfl, rfl⟩ := hk
  obtain ⟨run', hg', ho⟩ := origin_after hg
  simp only [Run.origin, Prod.mk.injEq] at ho
  exact ⟨run', hg', by rw [ho.1], ho.2.2.1⟩

theorem owned_kept {key : S3Key} (hk : key.owned p.world.db p.world.s3) :
    key.owned (p.after i n op next e).world.db (p.after i n op next e).world.s3 := by
  cases key with
  | runResults | runLogs => exact knows_kept hk
  | latestResults | latestMeta =>
    obtain ⟨r, hknows, hs⟩ := hk
    exact ⟨r, knows_kept hknows, isSome_after hs⟩
  | leaderboard | models | scenarios | engines => trivial

theorem knows_found (hfacts : ∀ x ∈ h, Grounds p.world x) {run : Run} (hf : h.found run) :
    p.world.db.knows (slug run.model) run.engine run.id := by
  obtain ⟨row, hg, ho, -⟩ := found_row hfacts hf
  simp only [Run.origin, Prod.mk.injEq] at ho
  exact ⟨row, hg, by rw [ho.1], ho.2.2.1⟩

theorem owned_of_stored (hfacts : ∀ x ∈ h, Grounds p.world x) {run : Run} {jsonl : String}
    (hf : h.found run) (hs : h.has (.s3 (.putObject run.resultsKey (.jsonl jsonl))) (.ok ())) :
    ∃ r, p.world.db.knows (slug run.model) run.engine r ∧
      (p.world.s3 (.runResults (slug run.model) run.engine r)).isSome :=
  ⟨run.id, knows_found hfacts hf, (hfacts _ hs).2⟩

theorem owned_of_puts (hfacts : ∀ x ∈ h, Grounds p.world x) {key : S3Key} {body : S3Body}
    (hr : Puts cfg n h key body) : key.owned p.world.db p.world.s3 := by
  cases hr with
  | results hf _ => exact knows_found hfacts hf
  | logs hf => exact knows_found hfacts hf
  | latest hc _ =>
    have ho := (concluded_benched hfacts hc).2
    simp only [Run.origin, Prod.mk.injEq] at ho
    rw [latestMetaKey, ho.1, ho.2.2.1]
    exact owned_of_stored hfacts hc.found hc.stored
  | leaderboard | models | scenarios | engines => trivial

theorem objects_after (hO : Owned p.world) (hfacts : ∀ x ∈ h, Grounds p.world x)
    (hr : rests cfg n h op) {key : S3Key}
    (hk : ((p.after i n op next e).world.s3 key).isSome) :
    key.owned (p.after i n op next e).world.db (p.after i n op next e).world.s3 := by
  obtain ⟨body, hbody⟩ := Option.isSome_iff_exists.1 hk
  apply owned_kept
  rcases object_after hbody with hold | rfl | ⟨source, rfl, -⟩
  · exact hO.objects key (by rw [hold]; rfl)
  · exact owned_of_puts hfacts hr
  · obtain ⟨run, jsonl, -, hf, hs, rfl, -⟩ := hr
    exact owned_of_stored hfacts hf hs

theorem rows_after (hO : Owned p.world) (hfacts : ∀ x ∈ h, Grounds p.world x)
    (hr : rests cfg n h op) {r : RunId}
    (hk : ((p.after i n op next e).world.db.results.get r).isSome) :
    ∃ run, (p.after i n op next e).world.db.runs.get r = some run ∧
      ((p.after i n op next e).world.s3 run.resultsKey).isSome := by
  have hkept : (∃ run, p.world.db.runs.get r = some run ∧ (p.world.s3 run.resultsKey).isSome) →
      ∃ run, (p.after i n op next e).world.db.runs.get r = some run ∧
        ((p.after i n op next e).world.s3 run.resultsKey).isSome := by
    rintro ⟨run, hg, hs⟩
    obtain ⟨run', hg', ho⟩ := origin_after hg
    have hid := (Table.key_of_get hg').trans (Table.key_of_get hg).symm
    refine ⟨run', hg', ?_⟩
    rw [Run.resultsKey_congr ho hid]
    exact isSome_after hs
  apply hkept
  rcases System.after_db p i e n op next with he | ⟨q, a, rfl, -, htx⟩
  · exact hO.rows r (by rwa [he] at hk)
  rcases q.resultStep htx with he | ⟨_, url, result, rfl, hi, -⟩
  · exact hO.rows r (by rwa [he] at hk)
  rw [Table.get_insert hi] at hk
  split at hk
  · -- the payload was uploaded before the commit, under the key of the run that was read
    obtain ⟨run, jsonl, rfl, -, hup, ha, -⟩ := hr
    obtain ⟨row, hg, ho, hid⟩ := found_row hfacts hup.found
    have hrun : result.runId = r := ‹_›
    rw [← hrun, (describes_of_aggregate ha).1]
    refine ⟨row, hg, ?_⟩
    rw [Run.resultsKey_congr ho hid]
    exact (hfacts _ hup.stored).2
  · exact hO.rows r hk

end

theorem owned_of_reach {C : System cfg → Step cfg → Prop} {w : World} {p : System cfg}
    (hw : Grounded w) (hO : Owned w) (h : Pool.Reach C (System.start cfg w) p) :
    Owned p.world := by
  refine (Pool.Reach.rested (rests cfg) Grounds h (fun w => Grounded w ∧ Owned w)
    (body_disciplined cfg) ⟨⟨hw.kinds, hw.runs, hw.latest, hw.listed⟩, hO.objects, hO.rows⟩ ?_
    fun _ _ _ hI _ => ⟨⟨hI.1.kinds, hI.1.runs, hI.1.latest, hI.1.listed⟩,
      hI.2.objects, hI.2.rows⟩).1.2
  intro p i e n op next h _ hI hfacts hr _ _
  refine ⟨⟨grounded_after hI.1 hfacts hr, fun _ => objects_after hI.2 hfacts hr,
    fun _ => rows_after hI.2 hfacts hr⟩, grounds_new hI.1 ?_, fun _ => grounds_kept⟩
  rintro r url result rfl
  obtain ⟨run, jsonl, rfl, -, -, hresult, -⟩ := hr
  exact (describes_of_aggregate hresult).1

/-- In every execution each reference leads to an object of its kind: the URLs of a run to its
results and its logs, `latest.meta.json` to the latest results of its pair and to a run with a
result, and each entry of the leaderboard to a run of its pair with a result. And each object leads
to a run: that of its key, or one of its pair whose payload is stored, as that of every result is. -/
theorem references_resolve {w : World} {p : System cfg} (hw : Grounded w) (hO : Owned w)
    (h : System.Reachable (System.start cfg w) p) : Grounded p.world ∧ Owned p.world :=
  ⟨grounded_of_reach hw h, owned_of_reach hw hO h⟩

theorem owned_sample : Owned Sample.world where
  objects _ h := by cases h
  rows _ h := by cases h

theorem references_resolve_of_completed :
    let p := Sample.start.play (Sample.completed 7)
    (Grounded p.world ∧ Owned p.world) ∧ (p.world.s3 (.runResults "m" .vllm 7)).isSome :=
  ⟨references_resolve grounded_sample owned_sample
    (Pool.reach_play Sample.start (Sample.completed 7) (by decide)), by decide⟩

end GrillPlatform
