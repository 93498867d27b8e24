import GrillPlatform.RowStates

/-! References into the bucket. An object is uploaded before the row or the document that names it,
and no object is ever deleted, so in every execution each reference leads to an object of its
kind. -/

namespace GrillPlatform
open Coroutine RunRepository
variable {cfg : Config}

/-- The kind of body that belongs under a key. -/
def S3Key.holds : S3Key → S3Body → Prop
  | .runResults .., .jsonl _ | .latestResults .., .jsonl _ | .runLogs .., .log _
  | .latestMeta .., .completedRun _ | .leaderboard, .leaderboard _ | .models, .models _
  | .scenarios, .scenarios _ | .engines, .engines _ => True
  | _, _ => False

/-- A run of the pair that has a result. -/
def Benched (db : Db) (r : RunId) (model engine : String) : Prop :=
  (db.results.get r).isSome ∧
    ∃ run, db.runs.get r = some run ∧ run.model = model ∧ run.engine.value = engine

/-- The entry of the leaderboard names a run of its pair that has a result. -/
def Backs (db : Db) (entry : Json) : Prop :=
  ∃ r model engine, entry.names r = true ∧ entry.hasStr "model" model = true ∧
    entry.hasStr "engine" engine = true ∧ Benched db r model engine

/-- The URLs in the row of a run are the texts of its keys, and the objects are there. -/
structure Run.Linked (s3 : S3) (run : Run) : Prop where
  results : ∀ url, run.resultsUrl = some url →
    url = run.resultsKey.text ∧ (s3 run.resultsKey).isSome
  logs : ∀ url, run.logsUrl = some url → url = run.logsKey.text ∧ (s3 run.logsKey).isSome

/-- Every reference leads to an object of its kind. -/
structure Grounded (w : World) : Prop where
  kinds : ∀ key body, w.s3 key = some body → key.holds body
  runs : ∀ r run, w.db.runs.get r = some run → run.Linked w.s3
  latest : ∀ s engine doc, w.s3 (.latestMeta s engine) = some (.completedRun doc) →
    slug doc.model = s ∧ doc.engine = engine.value ∧ (w.s3 (.latestResults s engine)).isSome ∧
      Benched w.db doc.runId doc.model doc.engine
  listed : ∀ entries, w.s3 .leaderboard = some (.leaderboard entries) →
    ∀ entry ∈ entries, Backs w.db entry

/-- An object that was written is there, a run that was completed has a result, and the entries that
were read are backed. -/
def Op.grounds (w : World) : (op : Op) → op.Resp → Prop
  | .s3 (.putObject key _), .ok _ => (w.s3 key).isSome
  | .s3 (.copyObject key _), .ok _ => (w.s3 key).isSome
  | .s3 (.getObject .leaderboard), .ok (some (.leaderboard entries)) =>
    ∀ entry ∈ entries, Backs w.db entry
  | .db (.completeRun r ..), .ok done => (w.db.results.get r).isSome ∧
    ∃ run, w.db.runs.get r = some run ∧ run.origin = done.1.origin
  | _, _ => True

def Grounds (w : World) (x : sig.Answered) : Prop := Stands w x ∧ Op.grounds w x.1 x.2

section
variable {p : System cfg} {i : Nat} {n : (orchestrator cfg).Name} {op : sig.Op}
  {next : sig.Resp op → Prog sig Exc Unit} {e : (orchestrator cfg).Env}

theorem Env.guard_ok {α σ : Type} {e : Env} {s : σ} {act : Except Exc α × σ} {a : α}
    (h : (e.guard s act).1 = .ok a) : e.guard s act = act := by
  unfold guard at h ⊢
  cases hf : e.fault with
  | none => rfl
  | before | after =>
    rw [hf] at h
    cases h

theorem isSome_update {s : S3} {key k : S3Key} {body : S3Body} (h : (s key).isSome) :
    (Function.update s k (some body) key).isSome := by
  by_cases hk : key = k
  · rw [hk, Function.update_self]
    rfl
  · rwa [Function.update_of_ne hk]

theorem S3Call.isSome_kept (q : S3Call) {e : Env} {s : S3} {key : S3Key} (h : (s key).isSome) :
    ((q.run e s).2 key).isSome := by
  cases q with
  | putObject k body => exact Env.guard_state (fun s' : S3 => (s' key).isSome) h (isSome_update h)
  | copyObject k source =>
    refine Env.guard_state (fun s' : S3 => (s' key).isSome) h ?_
    split
    · exact isSome_update h
    · exact h
  | headObject | getObject => exact Env.guard_state (fun s' : S3 => (s' key).isSome) h h

theorem S3Call.run_copy (key source : S3Key) (e : Env) (s : S3) :
    ((S3Call.copyObject key source).run e s).2 key = s key ∨ ∃ body, s source = some body ∧
      ((S3Call.copyObject key source).run e s).2 key = some body := by
  refine Env.guard_state (fun s' : S3 => s' key = s key ∨ ∃ body, s source = some body ∧
    s' key = some body) (.inl rfl) ?_
  cases hs : s source with
  | none => exact .inl rfl
  | some body => exact .inr ⟨body, rfl, Function.update_self ..⟩

theorem isSome_after {key : S3Key} (h : (p.world.s3 key).isSome) :
    ((p.after i n op next e).world.s3 key).isSome := by
  cases op with
  | s3 q => exact q.isSome_kept h
  | _ => exact h

theorem object_after {key : S3Key} {body : S3Body}
    (h : (p.after i n op next e).world.s3 key = some body) : p.world.s3 key = some body ∨
      (op : Op) = .s3 (.putObject key body) ∨
      ∃ source, (op : Op) = .s3 (.copyObject key source) ∧ p.world.s3 source = some body := by
  cases op with
  | s3 q =>
    rcases q.run_key e p.world.s3 key with he | ⟨body', rfl, he⟩ | ⟨source, rfl⟩
    · exact .inl (he.symm.trans h)
    · cases he.symm.trans h
      exact .inr (.inl rfl)
    · rcases S3Call.run_copy key source e p.world.s3 with he | ⟨body', hs, he⟩
      · exact .inl (he.symm.trans h)
      · cases he.symm.trans h
        exact .inr (.inr ⟨source, rfl, hs⟩)
  | _ => exact .inl h

theorem stored_kept {r : RunId} (h : (p.world.db.results.get r).isSome) :
    ((p.after i n op next e).world.db.results.get r).isSome := by
  rcases System.after_db p i e n op next with he | ⟨c, a, -, -, htx⟩
  · rwa [he]
  · rcases c.resultStep htx with he | ⟨_, _, result, -, hi, -⟩
    · rwa [he]
    · rw [Table.get_insert hi]
      split
      · rfl
      · exact h

theorem benched_kept {r : RunId} {model engine : String} (h : Benched p.world.db r model engine) :
    Benched (p.after i n op next e).world.db r model engine := by
  obtain ⟨hs, run, hg, rfl, rfl⟩ := h
  obtain ⟨run', hg', ho⟩ := origin_after hg
  simp only [Run.origin, Prod.mk.injEq] at ho
  exact ⟨stored_kept hs, run', hg', ho.1, congrArg _ ho.2.2.1⟩

theorem backs_kept {entry : Json} (h : Backs p.world.db entry) :
    Backs (p.after i n op next e).world.db entry := by
  obtain ⟨r, model, engine, hn, hm, he, hb⟩ := h
  exact ⟨r, model, engine, hn, hm, he, benched_kept hb⟩

theorem grounds_kept {x : sig.Answered} (hx : Grounds p.world x) :
    Grounds (p.after i n op next e).world x := by
  refine ⟨stands_kept hx.1, ?_⟩
  obtain ⟨op', a⟩ := x
  have hx := hx.2
  unfold Op.grounds at hx ⊢
  split at hx
  · exact isSome_after hx
  · exact isSome_after hx
  · exact fun entry he => backs_kept (hx entry he)
  · obtain ⟨hs, run, hg, ho⟩ := hx
    obtain ⟨run', hg', ho'⟩ := origin_after hg
    exact ⟨stored_kept hs, run', hg', ho'.trans ho⟩
  · trivial

theorem isSome_put {e : Env} {s : S3} {key : S3Key} {body : S3Body}
    (h : ((S3Call.putObject key body).run e s).1 = .ok ()) :
    ((S3Call.putObject key body).run e s).2 key = some body := by
  show (e.guard s (.ok (), Function.update s key (some body))).2 key = some body
  rw [Env.guard_ok h]
  exact Function.update_self ..

theorem isSome_copy {e : Env} {s : S3} {key source : S3Key}
    (h : ((S3Call.copyObject key source).run e s).1 = .ok ()) :
    (((S3Call.copyObject key source).run e s).2 key).isSome := by
  have hrun := Env.guard_ok h
  rw [show (S3Call.copyObject key source).run e s = _ from hrun] at h ⊢
  cases hs : s source with
  | none =>
    rw [hs] at h
    cases h
  | some body =>
    show (Function.update s key (some body) key).isSome
    rw [Function.update_self]
    rfl

theorem grounds_new (hI : Grounded p.world) (hr : ∀ r url result,
      (op : Op) = .db (.completeRun r url result) → result.runId = r) :
    Grounds (p.after i n op next e).world
      ⟨op, ((orchestrator cfg).handle i n op e p.world).1⟩ := by
  refine ⟨stands_new, ?_⟩
  cases op with
  | db q =>
    cases q with
    | completeRun r url result =>
      show Op.grounds _ (.db (.completeRun r url result))
        ((Query.completeRun r url result).run e (p.world.clock + e.elapsed) p.world.db).1
      match ha : ((Query.completeRun r url result).run e
        (p.world.clock + e.elapsed) p.world.db).1 with
      | .error x => trivial
      | .ok done =>
        obtain ⟨⟨run, -, hdone, hg⟩, hi⟩ := completeRun_ok (Query.run_ok ha)
        refine ⟨?_, _, hg, by rw [hdone]⟩
        obtain rfl := hr r url result rfl
        have hget := Table.get_insert hi result.runId
        rw [if_pos rfl] at hget
        exact Option.isSome_iff_exists.2 ⟨result, hget⟩
    | _ => trivial
  | s3 q =>
    cases q with
    | putObject key body =>
      show Op.grounds _ (.s3 (.putObject key body)) ((S3Call.putObject key body).run e p.world.s3).1
      match ha : ((S3Call.putObject key body).run e p.world.s3).1 with
      | .error x => trivial
      | .ok _ =>
        show (((S3Call.putObject key body).run e p.world.s3).2 key).isSome
        rw [isSome_put ha]
        rfl
    | copyObject key source =>
      show Op.grounds _ (.s3 (.copyObject key source))
        ((S3Call.copyObject key source).run e p.world.s3).1
      match ha : ((S3Call.copyObject key source).run e p.world.s3).1 with
      | .error x => trivial
      | .ok _ => exact isSome_copy ha
    | getObject key =>
      cases key with
      | leaderboard =>
        show Op.grounds _ (.s3 (.getObject .leaderboard))
          ((S3Call.getObject .leaderboard).run e p.world.s3).1
        match ha : ((S3Call.getObject .leaderboard).run e p.world.s3).1 with
        | .ok (some (.leaderboard entries)) =>
          exact fun entry he => backs_kept (hI.listed entries (getObject_ok ha).symm entry he)
        | .ok (some (.jsonl _)) | .ok (some (.log _)) | .ok (some (.completedRun _))
        | .ok (some (.models _)) | .ok (some (.scenarios _)) | .ok (some (.engines _)) | .ok none
        | .error _ => trivial
      | _ => trivial
    | headObject => trivial
  | _ => trivial

/-! ## One call -/

theorem found_row {h : History} (hfacts : ∀ x ∈ h, Grounds p.world x) {run : Run}
    (hf : h.found run) : ∃ row, p.world.db.runs.get run.id = some row ∧ row.origin = run.origin ∧
      row.id = run.id := by
  obtain ⟨row, hg, ho⟩ := (hfacts _ hf).1
  exact ⟨row, hg, ho, Table.key_of_get hg⟩

theorem concluded_benched {h : History} (hfacts : ∀ x ∈ h, Grounds p.world x) {run : Run}
    {jsonl : String} {result : Result} {done : RunOf run.id}
    (hc : Concluded cfg h run jsonl result done) :
    Benched p.world.db done.1.id done.1.model done.1.engine.value ∧ done.1.origin = run.origin := by
  obtain ⟨hs, row, hg, ho⟩ := (hfacts _ hc.committed).2
  obtain ⟨row', hg', ho', -⟩ := found_row hfacts hc.found
  cases hg.symm.trans hg'
  have horigin := ho
  simp only [Run.origin, Prod.mk.injEq] at ho
  rw [Benched, done.2]
  exact ⟨⟨hs, row, hg, ho.1, congrArg _ ho.2.2.1⟩, horigin.symm.trans ho'⟩

theorem kinds_after {h : History} (hI : Grounded p.world) (hr : rests cfg n h op) {key : S3Key}
    {body : S3Body} (hk : (p.after i n op next e).world.s3 key = some body) : key.holds body := by
  rcases object_after hk with hold | rfl | ⟨source, rfl, hsource⟩
  · exact hI.kinds key body hold
  · cases hr <;> trivial
  · obtain ⟨run, jsonl, -, -, -, rfl, rfl⟩ := hr
    have hs := hI.kinds _ _ hsource
    cases body <;> trivial

theorem Run.logsKey_congr {run run' : Run} (ho : run'.origin = run.origin)
    (hid : run'.id = run.id) : run'.logsKey = run.logsKey := by
  simp only [origin, Prod.mk.injEq] at ho
  rw [logsKey, logsKey, ho.1, ho.2.2.1, hid]

theorem linked_after {h : History} (hI : Grounded p.world)
    (hfacts : ∀ x ∈ h, Grounds p.world x) (hr : rests cfg n h op) {r : RunId} {run : Run}
    (hg : (p.after i n op next e).world.db.runs.get r = some run) :
    run.Linked (p.after i n op next e).world.s3 := by
  have hold : ∀ run : Run, run.Linked p.world.s3 →
      run.Linked (p.after i n op next e).world.s3 := fun run hl =>
    ⟨fun url hu => (hl.results url hu).imp_right isSome_after,
      fun url hu => (hl.logs url hu).imp_right isSome_after⟩
  rcases System.after_db p i e n op next with he | ⟨c, a, rfl, -, htx⟩
  · rw [he] at hg
    exact hold run (hI.runs r run hg)
  rcases c.rowStep htx r with he | ⟨x, y, hx, hy, hw⟩ | ⟨x, rfl, rfl, -, hy⟩
  · exact hold run (hI.runs r run (he.symm.trans hg))
  · cases hy.symm.trans hg
    obtain rfl := Table.key_of_get hx
    have hl := hold x (hI.runs _ x hx)
    cases hw with
    | complete =>
      -- the payload was uploaded before the commit, under the key of the run that was read
      obtain ⟨run, jsonl, hid, -, hup, -, rfl⟩ := hr
      obtain ⟨row, hrow, ho, hid'⟩ := found_row hfacts hup.found
      rw [hid] at hrow
      cases hx.symm.trans hrow
      have hkey := Run.resultsKey_congr ho hid'
      have hobject : (p.world.s3 x.resultsKey).isSome := by
        rw [hkey]
        exact (hfacts _ hup.stored).2
      exact ⟨fun url hu => ⟨by rw [← Option.some.inj hu, ← hkey]; rfl, isSome_after hobject⟩,
        hl.logs⟩
    | logs =>
      obtain ⟨run, body, hid, hf, hput, rfl⟩ := hr
      obtain ⟨row, hrow, ho, hid'⟩ := found_row hfacts hf
      rw [hid] at hrow
      cases hx.symm.trans hrow
      have hkey := Run.logsKey_congr ho hid'
      have hobject : (p.world.s3 x.logsKey).isSome := by
        rw [hkey]
        exact (hfacts _ hput).2
      exact ⟨hl.results, fun url hu =>
        ⟨by rw [← Option.some.inj hu, ← hkey]; rfl, isSome_after hobject⟩⟩
    | _ => exact ⟨hl.results, hl.logs⟩
  · cases hy.symm.trans hg
    obtain ⟨-, -, hu, hl, -⟩ := hr
    refine ⟨fun url h => ?_, fun url h => ?_⟩
    · cases hu.symm.trans h
    · cases hl.symm.trans h

theorem latest_after {h : History} (hI : Grounded p.world)
    (hfacts : ∀ x ∈ h, Grounds p.world x) (hr : rests cfg n h op) {s : String} {engine : Engine}
    {doc : CompletedRunMeta}
    (hk : (p.after i n op next e).world.s3 (.latestMeta s engine) = some (.completedRun doc)) :
    slug doc.model = s ∧ doc.engine = engine.value ∧
      ((p.after i n op next e).world.s3 (.latestResults s engine)).isSome ∧
      Benched (p.after i n op next e).world.db doc.runId doc.model doc.engine := by
  rcases object_after hk with hold | rfl | ⟨source, rfl, hsource⟩
  · obtain ⟨hs, he, ho, hb⟩ := hI.latest s engine doc hold
    exact ⟨hs, he, isSome_after ho, benched_kept hb⟩
  · obtain ⟨run, jsonl, result, done, t, -, hc, hkey, rfl⟩ := Puts.latest_inv hr
    obtain ⟨hb, ho⟩ := concluded_benched hfacts hc
    obtain ⟨rfl, rfl⟩ := S3Key.latestMeta.inj hkey
    have hpair := ho
    simp only [Run.origin, Prod.mk.injEq] at hpair
    have hlatest : (p.world.s3 (.latestResults (slug done.1.model) done.1.engine)).isSome := by
      rw [hpair.1, hpair.2.2.1]
      exact (hfacts _ hc.copied).2
    exact ⟨rfl, rfl, isSome_after hlatest, benched_kept hb⟩
  · obtain ⟨run, jsonl, -, -, -, hkey, -⟩ := hr
    cases hkey

theorem backs_entry {run : Run} {result : Result} {perConcurrency : List Json} {t : Time} {db : Db}
    (hb : Benched db run.id run.model run.engine.value) :
    Backs db (leaderboardEntry run result perConcurrency t) :=
  ⟨run.id, run.model, run.engine.value, by rw [names_leaderboardEntry]; exact decide_eq_true rfl,
    by rw [hasStr_model]; exact decide_eq_true rfl, by rw [hasStr_engine]; exact decide_eq_true rfl,
    hb⟩

theorem listed_after {h : History} (hI : Grounded p.world)
    (hfacts : ∀ x ∈ h, Grounds p.world x) (hr : rests cfg n h op) {entries : List Json}
    (hk : (p.after i n op next e).world.s3 .leaderboard = some (.leaderboard entries))
    {entry : Json} (hmem : entry ∈ entries) : Backs (p.after i n op next e).world.db entry := by
  rcases object_after hk with hold | rfl | ⟨source, rfl, hsource⟩
  · exact backs_kept (hI.listed entries hold entry hmem)
  · obtain ⟨run, jsonl, result, done, t, current, old, perConcurrency, -, hc, -, hget, he, rfl⟩ :=
      Puts.leaderboard_inv hr
    refine backs_kept ?_
    rcases List.mem_append.1 hmem with hmem | hmem
    -- an entry that was read
    · have hold : entry ∈ old := (List.mem_filter.1 hmem).1
      rcases leaderboardEntries_ok he with rfl | rfl
      · cases hold
      · exact (hfacts _ hget).2 entry hold
    · rw [List.mem_singleton.1 hmem]
      exact backs_entry (concluded_benched hfacts hc).1
  · obtain ⟨run, jsonl, -, -, -, hkey, -⟩ := hr
    cases hkey

theorem grounded_after {h : History} (hI : Grounded p.world)
    (hfacts : ∀ x ∈ h, Grounds p.world x) (hr : rests cfg n h op) :
    Grounded (p.after i n op next e).world where
  kinds _ _ hk := kinds_after hI hr hk
  runs _ _ hg := linked_after hI hfacts hr hg
  latest _ _ _ hk := latest_after hI hfacts hr hk
  listed _ hk _ hmem := listed_after hI hfacts hr hk hmem

end

theorem grounded_of_reach {C : System cfg → Step cfg → Prop} {w : World} {p : System cfg}
    (hw : Grounded w) (h : Pool.Reach C (System.start cfg w) p) : Grounded p.world := by
  refine (Pool.Reach.rested (rests cfg) Grounds h Grounded
    (body_disciplined cfg) ⟨hw.kinds, hw.runs, hw.latest, hw.listed⟩ ?_ fun _ _ _ hI _ =>
      ⟨hI.kinds, hI.runs, hI.latest, hI.listed⟩).1
  intro p i e n op next h _ hI hfacts hr _ _
  refine ⟨grounded_after hI hfacts hr, grounds_new hI ?_, fun _ => grounds_kept⟩
  rintro r url result rfl
  obtain ⟨run, jsonl, rfl, -, -, hresult, -⟩ := hr
  exact (describes_of_aggregate hresult).1

theorem grounded_sample : Grounded Sample.world where
  kinds _ _ h := by cases h
  runs _ _ h := by cases h
  latest _ _ _ h := by cases h
  listed _ h := by cases h

end GrillPlatform
