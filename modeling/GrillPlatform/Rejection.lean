import GrillPlatform.Completion

/-! A payload that the aggregation rejects. The uploads come before the parsing, so by then
`latest.jsonl` is already a copy of the payload. -/

namespace GrillPlatform
open Coroutine RunRepository
variable {cfg : Config}

/-- `aggregate` or `aggregate_per_concurrency` raises. -/
def Rejected (cfg : Config) (jsonl : String) : Prop := ∀ run, ¬ Accepted cfg run jsonl

/-- The database and what is published are as they were. -/
structure Unmarked (w w' : World) : Prop where
  db : w'.db = w.db
  latest : ∀ slug engine, w'.s3 (.latestResults slug engine) = w.s3 (.latestResults slug engine)
  latestMeta : ∀ slug engine, w'.s3 (.latestMeta slug engine) = w.s3 (.latestMeta slug engine)
  leaderboard : w'.s3 .leaderboard = w.s3 .leaderboard

/-- Where `latest.meta.json` names a run, `latest.jsonl` holds the payload of that run. -/
def Consistent (w : World) : Prop :=
  ∀ slug engine doc, w.s3 (.latestMeta slug engine) = some (.completedRun doc) →
    ∃ jsonl, w.s3 (.runResults slug engine doc.runId) = some (.jsonl jsonl) ∧
      w.s3 (.latestResults slug engine) = some (.jsonl jsonl)

/-- A POST of a payload, with the environment's choices for its calls. -/
structure Post where
  runId : RunId
  jsonl : String
  env : Nat → Env

def Post.name (c : Post) : TaskName := .request (.complete c.runId c.jsonl)

def serveAll (p : System cfg) : List Post → System cfg
  | [] => p
  | c :: posts => serveAll (p.serve c.name c.env) posts

def AllPosts (P : System cfg → Post → Prop) (p : System cfg) : List Post → Prop
  | [] => True
  | c :: posts => P p c ∧ AllPosts P (p.serve c.name c.env) posts

/-- A rejected POST leaves the database and what is published alone. -/
def Traceless (p : System cfg) (c : Post) : Prop :=
  Rejected cfg c.jsonl → Unmarked p.world (p.serve c.name c.env).world

/-- A rejected POST to a running run does not get to copy its payload, or copies what is there. -/
def Harmless (p : System cfg) (c : Post) : Prop :=
  Rejected cfg c.jsonl → ∀ run, p.world.db.runs.get c.runId = some run → run.status = .running →
    Copies c.env → p.world.s3 (latestResultsKey run.model run.engine) = some (.jsonl c.jsonl)

/-- The payload is accepted, and the copy, the commit and the upload of the metadata behind it go
through. -/
def Announces (cfg : Config) (run : Run) (c : Post) : Prop :=
  Accepted cfg run c.jsonl ∧ (c.env 2).fault = .none ∧ (c.env 3).fault = .none ∧
    (c.env 4).fault ≠ .before

/-- A POST to a running run that copies its payload announces the run, or nothing is announced of
the pair, or the payload is what `latest.jsonl` holds. -/
def Keeps (p : System cfg) (c : Post) : Prop :=
  ∀ run, p.world.db.runs.get c.runId = some run → run.status = .running → Copies c.env →
    Announces cfg run c ∨
    (∀ doc, p.world.s3 (latestMetaKey run.model run.engine) ≠ some (.completedRun doc)) ∨
    p.world.s3 (latestResultsKey run.model run.engine) = some (.jsonl c.jsonl)

/-- A run with a result, or that `latest.meta.json` names, is no longer running. -/
structure Retired (w : World) : Prop where
  results : ∀ r, w.db.results.get r ≠ none → w.db.status r ≠ some .running
  metas : ∀ slug engine doc, w.s3 (.latestMeta slug engine) = some (.completedRun doc) →
    w.db.status doc.runId ≠ some .running

theorem serve_ends {p : System cfg} {c : Post}
    {Q : Except Exc Unit → World → List TaskName → Prop}
    (h : Ends cfg p.tasks.length c.name (RunController.complete cfg c.runId c.jsonl)
      c.env p.world []
      Q) : ∃ out created, Q out (p.serve c.name c.env).world created := ⟨_, _, h⟩

theorem rejected_of_not {run : Run} {jsonl : String} (h : ¬ Accepted cfg run jsonl) :
    Rejected cfg jsonl := fun run' h' =>
  h ⟨(isOk_aggregate cfg.llmGrill jsonl run run').trans h'.1, h'.2⟩

/-- A POST that does not commit marks nothing, unless it copies another payload. -/
theorem unmarked_iff {run : Run} {jsonl : String} {moved : Prop} [Decidable moved] {w w' : World}
    (hdb : w'.db = w.db) (hu : Uploaded run jsonl moved w.s3 w'.s3) : Unmarked w w' ↔
      (moved → w.s3 (latestResultsKey run.model run.engine) = some (.jsonl jsonl)) := by
  constructor
  · intro h hm
    have hl := hu.latest
    rw [if_pos hm] at hl
    exact (h.latest _ _).symm.trans hl
  · intro h
    refine ⟨hdb, fun slug engine => ?_, fun slug engine => ?_, ?_⟩
    · by_cases hk : S3Key.latestResults slug engine = latestResultsKey run.model run.engine
      · rw [hk, hu.latest]
        split
        · exact (h ‹_›).symm
        · rfl
      · exact hu.others _ S3Key.noConfusion hk
    · exact hu.others _ S3Key.noConfusion S3Key.noConfusion
    · exact hu.others _ S3Key.noConfusion S3Key.noConfusion

theorem traceless_iff (p : System cfg) (c : Post) : Traceless p c ↔ Harmless p c := by
  by_cases hs : p.world.db.status c.runId = some .running
  · obtain ⟨run, hg, hrun⟩ := Db.get_of_status hs
    refine forall_congr' fun hrej => ?_
    obtain ⟨-, -, hdb, hu, -⟩ := serve_ends (p := p) (c := c)
      (complete_uncommitted hg hrun (.inr (.inr (hrej run))))
    rw [unmarked_iff hdb hu]
    constructor
    · rintro h run' hg' - hm
      obtain rfl : run = run' := Option.some.inj (hg.symm.trans hg')
      exact h hm
    · exact fun h => h run hg hrun
  · -- the POST is refused
    obtain ⟨-, -, hdb, hs3, -⟩ := serve_ends (p := p) (c := c) (complete_refused hs)
    refine iff_of_true (fun _ => ⟨hdb, ?_, ?_, ?_⟩) fun _ run hg hrun => ?_
    · exact fun _ _ => by rw [hs3]
    · exact fun _ _ => by rw [hs3]
    · rw [hs3]
    · exact absurd ((Db.status_of_get hg).trans (congrArg some hrun)) hs

section
variable {run : Run} {jsonl : String} {w w' : World} {moved : Prop} [Decidable moved]

theorem Consistent.uploaded_iff (h : Consistent w) (hset : Retired w)
    (hrun : w.db.status run.id = some .running) (hu : Uploaded run jsonl moved w.s3 w'.s3) :
    Consistent w' ↔ (moved →
      (∀ doc, w.s3 (latestMetaKey run.model run.engine) ≠ some (.completedRun doc)) ∨
      w.s3 (latestResultsKey run.model run.engine) = some (.jsonl jsonl)) := by
  have hmeta : ∀ slug engine, w'.s3 (.latestMeta slug engine) = w.s3 (.latestMeta slug engine) :=
    fun _ _ => hu.others _ S3Key.noConfusion S3Key.noConfusion
  -- the payload of a run that is named is not the one uploaded
  have hown : ∀ slug engine doc, w.s3 (.latestMeta slug engine) = some (.completedRun doc) →
      w'.s3 (.runResults slug engine doc.runId) = w.s3 (.runResults slug engine doc.runId) := by
    intro slug engine doc hd
    refine hu.others _ (fun hk => ?_) S3Key.noConfusion
    injection hk with _ _ hid
    exact hset.metas slug engine doc hd (hid ▸ hrun)
  constructor
  · intro h' hm
    by_cases hd : ∃ doc, w.s3 (latestMetaKey run.model run.engine) = some (.completedRun doc)
    · obtain ⟨doc, hd⟩ := hd
      obtain ⟨text, hrow, hlatest⟩ := h _ _ doc hd
      obtain ⟨text', hrow', hlatest'⟩ := h' _ _ doc ((hmeta _ _).trans hd)
      have hcopied : w'.s3 (latestResultsKey run.model run.engine) = some (.jsonl jsonl) := by
        rw [hu.latest, if_pos hm]
      cases hcopied.symm.trans hlatest'
      cases (hown _ _ doc hd).symm.trans hrow' |>.symm.trans hrow
      exact .inr hlatest
    · exact .inl fun doc hdoc => hd ⟨doc, hdoc⟩
  · intro hkeep slug engine doc hd
    rw [hmeta] at hd
    obtain ⟨text, hrow, hlatest⟩ := h slug engine doc hd
    refine ⟨text, (hown slug engine doc hd).trans hrow, ?_⟩
    by_cases hk : S3Key.latestResults slug engine = latestResultsKey run.model run.engine
    · rw [hk, hu.latest]
      split
      · rcases hkeep ‹_› with hnone | hsame
        · injection hk with hslug hengine
          exact absurd hd (by rw [hslug, hengine]; exact hnone doc)
        · rw [← hsame, ← hk, hlatest]
      · rw [← hk, hlatest]
    · rw [hu.others _ S3Key.noConfusion hk, hlatest]

theorem Consistent.announced {w₀ : World} (h : Consistent w)
    (hu : Uploaded run jsonl True w.s3 w₀.s3)
    (ho : ∀ key, key ≠ latestMetaKey run.model run.engine → key ≠ .leaderboard →
      w'.s3 key = w₀.s3 key)
    (hm : ∃ t, w'.s3 (latestMetaKey run.model run.engine) = some (.completedRun (runMeta run t))) :
    Consistent w' := by
  intro slug engine doc hd
  rw [ho _ S3Key.noConfusion S3Key.noConfusion, ho _ S3Key.noConfusion S3Key.noConfusion]
  by_cases hk : S3Key.latestMeta slug engine = latestMetaKey run.model run.engine
  · obtain ⟨t, hm⟩ := hm
    rw [hk, hm] at hd
    cases hd
    injection hk with hslug hengine
    rw [hslug, hengine]
    exact ⟨jsonl, hu.own trivial, hu.latest⟩
  · rw [ho _ hk S3Key.noConfusion, hu.others _ S3Key.noConfusion S3Key.noConfusion] at hd
    obtain ⟨text, hown, hlatest⟩ := h slug engine doc hd
    refine ⟨text, (hu.others _ ?_ S3Key.noConfusion).trans hown,
      (hu.others _ S3Key.noConfusion ?_).trans hlatest⟩
    · intro he
      injection he with hslug hengine
      exact hk (by rw [hslug, hengine]; rfl)
    · intro he
      injection he with hslug hengine
      exact hk (by rw [hslug, hengine]; rfl)

end

theorem Consistent.congr {w w' : World} (h : ∀ key, key ≠ .leaderboard → w'.s3 key = w.s3 key) :
    Consistent w' ↔ Consistent w := by
  refine forall_congr' fun slug => forall_congr' fun engine => forall_congr' fun doc => ?_
  rw [h (.latestMeta slug engine) S3Key.noConfusion, h (.latestResults slug engine)
    S3Key.noConfusion, h (.runResults slug engine doc.runId) S3Key.noConfusion]

section
variable {p : System cfg} {c : Post} {run : Run}

theorem not_announces (h : FailsBeforeCommit c.env ∨ ¬ Accepted cfg run c.jsonl)
    (hc : Copies c.env) : ¬ Announces cfg run c := by
  rintro ⟨hacc, h2, h3, -⟩
  rcases h with (⟨k, hk, hf⟩ | hf) | hn
  · rcases by omega with rfl | rfl | rfl : k = 0 ∨ k = 1 ∨ k = 2
    · exact hf hc.1
    · exact hf hc.2.1
    · exact hf h2
  · cases h3.symm.trans hf
  · exact hn hacc

theorem serve_running (hg : p.world.db.runs.get c.runId = some run) (hs : run.status = .running)
    (hret : Retired p.world) :
    let w' := (p.serve c.name c.env).world
    (w'.db = p.world.db ∧ Uploaded run c.jsonl (Copies c.env) p.world.s3 w'.s3 ∧
      (Copies c.env → ¬ Announces cfg run c)) ∨
    ∃ t result w₁, Committed run c.jsonl result t p.world w₁ ∧ result.runId = run.id ∧
      w'.db = w₁.db ∧ Copies c.env ∧
      ((¬ Announces cfg run c ∧ ∀ key, key ≠ .leaderboard → w'.s3 key = w₁.s3 key) ∨
        (∀ key, key ≠ latestMetaKey run.model run.engine → key ≠ .leaderboard →
          w'.s3 key = w₁.s3 key) ∧
        w'.s3 (latestMetaKey run.model run.engine) = some (.completedRun (runMeta run t)) ∧
        Announces cfg run c) := by
  have hid : run.id = c.runId := Table.key_of_get hg
  have hfresh : p.world.db.results.get c.runId = none := by
    by_contra hne
    exact hret.results _ hne ((Db.status_of_get hg).trans (congrArg some hs))
  by_cases hf : FailsBeforeCommit c.env ∨ ¬ Accepted cfg run c.jsonl
  · obtain ⟨-, -, hdb, hu, -⟩ := serve_ends (p := p) (c := c)
      (complete_uncommitted hg hs (hf.imp_right .inr))
    exact .inl ⟨hdb, hu, not_announces hf⟩
  · obtain ⟨hthrough, hacc⟩ := not_or.1 hf
    have hacc := not_not.1 hacc
    have hk : ∀ k < 3, (c.env k).fault = .none := fun k h => by
      by_contra hne
      exact hthrough (.inl ⟨k, h, hne⟩)
    have hcopies : Copies c.env :=
      ⟨hk 0 (by decide), hk 1 (by decide), by rw [hk 2 (by decide)]; exact Fault.noConfusion⟩
    obtain ⟨⟨result, ha⟩, perConcurrency, hp⟩ := accepted_ok hacc
    obtain ⟨_, _, t, w₁, hc, hA⟩ := serve_ends (p := p) (c := c)
      (complete_committed hg hs hfresh ha hp hthrough)
    refine .inr ⟨t, result, w₁, hc, runId_aggregate cfg.llmGrill ha, ?_, hcopies, ?_⟩
    · split at hA
      · exact hA.db
      · exact hA.1
    · by_cases h3 : (c.env 3).fault = .none
      · rw [if_pos h3] at hA
        have hmeta := hA.latestMeta
        split at hmeta
        · -- the metadata are not written
          rename_i h4
          refine .inl ⟨fun h => h.2.2.2 h4, fun key hkey => ?_⟩
          by_cases hm : key = latestMetaKey run.model run.engine
          · rw [hm]
            exact hmeta
          · exact hA.others key hm hkey
        · rename_i h4
          exact .inr ⟨hA.others, hmeta, hacc, hk 2 (by decide), h3, h4⟩
      · rw [if_neg h3] at hA
        exact .inl ⟨fun h => h3 h.2.2.1, fun key _ => by rw [hA.2.1]⟩

theorem keeps_iff (hg : p.world.db.runs.get c.runId = some run) (hs : run.status = .running) :
    Keeps p c ↔ (Copies c.env → Announces cfg run c ∨
      (∀ doc, p.world.s3 (latestMetaKey run.model run.engine) ≠ some (.completedRun doc)) ∨
      p.world.s3 (latestResultsKey run.model run.engine) = some (.jsonl c.jsonl)) := by
  refine ⟨fun h => h run hg hs, fun h run' hg' _ => ?_⟩
  obtain rfl : run = run' := Option.some.inj (hg.symm.trans hg')
  exact h

theorem consistent_serve_iff (h : Consistent p.world) (hret : Retired p.world) :
    Consistent (p.serve c.name c.env).world ↔ Keeps p c := by
  by_cases hr : p.world.db.status c.runId = some .running
  · obtain ⟨run, hg, hs⟩ := Db.get_of_status hr
    have hrun : p.world.db.status run.id = some .running := (Table.key_of_get hg).symm ▸ hr
    rw [keeps_iff hg hs]
    rcases serve_running hg hs hret with ⟨-, hu, hn⟩ | ⟨t, result, w₁, hc, -, -, hcopies,
      ⟨hn, hsame⟩ | ⟨ho, hm, ha⟩⟩
    · rw [h.uploaded_iff hret hrun hu]
      exact forall_congr' fun hcopies => (or_iff_right (hn hcopies)).symm
    · rw [Consistent.congr hsame, h.uploaded_iff hret hrun hc.uploaded]
      exact ⟨fun h' _ => .inr (h' trivial), fun h' _ => (h' hcopies).resolve_left hn⟩
    · exact iff_of_true (h.announced hc.uploaded ho ⟨t, hm⟩) fun _ => .inl ha
  · -- the POST is refused
    obtain ⟨-, -, -, hs3, -⟩ := serve_ends (p := p) (c := c) (complete_refused hr)
    refine iff_of_true ((Consistent.congr fun key _ => by rw [hs3]).2 h) fun run hg hs => ?_
    exact absurd ((Db.status_of_get hg).trans (congrArg some hs)) hr

theorem retired_serve (hret : Retired p.world) : Retired (p.serve c.name c.env).world := by
  by_cases hr : p.world.db.status c.runId = some .running
  · obtain ⟨run, hg, hs⟩ := Db.get_of_status hr
    have hrun : p.world.db.status run.id = some .running := (Table.key_of_get hg).symm ▸ hr
    rcases serve_running hg hs hret with ⟨hdb, hu, -⟩ | ⟨t, result, w₁, hc, hid, hdb, -, hout⟩
    · refine ⟨fun r => by rw [hdb]; exact hret.results r, fun slug engine doc hd => ?_⟩
      rw [hu.others _ S3Key.noConfusion S3Key.noConfusion] at hd
      rw [hdb]
      exact hret.metas slug engine doc hd
    · -- the run is done now, and the others are as they were
      have hkept : ∀ r, (r ≠ run.id → p.world.db.status r ≠ some .running) →
          (p.serve c.name c.env).world.db.status r ≠ some .running := by
        intro r hbefore
        rw [hdb]
        by_cases hk : r = run.id
        · rw [hk, Db.status_of_get hc.done]
          exact fun h => RunStatus.noConfusion (Option.some.inj h)
        · rw [Db.status, hc.frame r hk]
          exact hbefore hk
      refine ⟨fun r hne => hkept r fun hk => hret.results r ?_, fun slug engine doc hd =>
        hkept _ fun hk => ?_⟩
      · rw [hdb, Table.get_insert hc.inserted, if_neg fun h => hk (h.symm.trans hid)] at hne
        exact hne
      · have hbefore : (p.serve c.name c.env).world.s3 (.latestMeta slug engine) =
            p.world.s3 (.latestMeta slug engine) := by
          rcases hout with ⟨-, hsame⟩ | ⟨ho, hm, -⟩
          · exact (hsame _ S3Key.noConfusion).trans
              (hc.uploaded.others _ S3Key.noConfusion S3Key.noConfusion)
          · by_cases hkey : S3Key.latestMeta slug engine = latestMetaKey run.model run.engine
            · rw [hkey, hm] at hd
              cases hd
              exact absurd rfl hk
            · exact (ho _ hkey S3Key.noConfusion).trans
                (hc.uploaded.others _ S3Key.noConfusion S3Key.noConfusion)
        exact hret.metas slug engine doc (hbefore.symm.trans hd)
  · obtain ⟨-, -, hdb, hs3, -⟩ := serve_ends (p := p) (c := c) (complete_refused hr)
    exact ⟨fun r => by rw [hdb]; exact hret.results r,
      fun slug engine doc => by rw [hdb, hs3]; exact hret.metas slug engine doc⟩

end

theorem reachable_serveAll (p : System cfg) (posts : List Post) :
    System.Reachable p (serveAll p posts) := by
  induction posts generalizing p with
  | nil => exact .init
  | cons c posts ih => exact (Pool.reach_serve p rfl c.env).trans (ih _)

/-- Over any sequence of POSTs: the rejected ones leave no trace exactly when none of them copies
another payload, and `latest.jsonl` stays the payload of the run that `latest.meta.json` names
exactly when every POST that copies its payload announces its run, where another is announced. -/
theorem traceless_and_consistent (p : System cfg) (posts : List Post) :
    (AllPosts Traceless p posts ↔ AllPosts Harmless p posts) ∧
    (Consistent p.world → Retired p.world →
      (AllPosts (fun q c => Consistent (q.serve c.name c.env).world) p posts ↔
        AllPosts Keeps p posts)) := by
  induction posts generalizing p with
  | nil => exact ⟨Iff.rfl, fun _ _ => Iff.rfl⟩
  | cons c posts ih =>
    refine ⟨and_congr (traceless_iff p c) (ih _).1, fun h hret => ?_⟩
    have hserved := consistent_serve_iff (c := c) h hret
    refine ⟨fun ⟨hc, hrest⟩ => ?_, fun ⟨hk, hrest⟩ => ?_⟩
    · exact ⟨hserved.1 hc, ((ih _).2 hc (retired_serve hret)).1 hrest⟩
    · have hc := hserved.2 hk
      exact ⟨hc, ((ih _).2 hc (retired_serve hret)).2 hrest⟩

/-- Run 7 is published. Then run 8 sends a payload that is rejected, and whose copy fails, and
another that is accepted. -/
def Sample.posts : List Post :=
  [⟨7, "", fun _ => {}⟩, ⟨8, "x", fun k => if k = 2 then { fault := .before } else {}⟩,
    ⟨8, "", fun _ => {}⟩]

theorem rejected_sample : Rejected Sample.config "x" := by
  have hacc : ¬ Accepted Sample.config Sample.run "x" := fun h => by cases h.1
  exact rejected_of_not hacc

theorem accepted_sample (run : Run) : Accepted Sample.config run "" := ⟨rfl, rfl⟩

theorem traceless_and_consistent_of_posts :
    let p := Sample.start.play Sample.bothRunning
    Rejected Sample.config "x" ∧ AllPosts Traceless p Sample.posts ∧
      AllPosts (fun q c => Consistent (q.serve c.name c.env).world) p Sample.posts := by
  intro p
  obtain ⟨htraceless, hconsistent⟩ := traceless_and_consistent p Sample.posts
  have hfree : p.world.s3 = fun _ => none := rfl
  have hconsistent₀ : Consistent p.world := fun _ _ _ hd => by
    rw [hfree] at hd
    cases hd
  have hretired : Retired p.world := by
    refine ⟨fun r hne => absurd rfl hne, fun _ _ _ hd => ?_⟩
    rw [hfree] at hd
    cases hd
  have hgoes : ∀ run c, c.jsonl = "" → c.env = (fun _ => {}) →
      Announces Sample.config run c := by
    rintro run ⟨r, jsonl, env⟩ rfl rfl
    exact ⟨accepted_sample run, rfl, rfl, Fault.noConfusion⟩
  have hfails : ¬ Copies fun k => if k = 2 then ({ fault := .before } : Env) else {} := by decide
  refine ⟨rejected_sample, htraceless.2 ⟨?_, ?_, ?_, trivial⟩,
    (hconsistent hconsistent₀ hretired).2 ⟨?_, ?_, ?_, trivial⟩⟩
  · exact fun hr => absurd (accepted_sample _) (hr Sample.run)
  · exact fun _ _ _ _ hc => absurd hc hfails
  · exact fun hr => absurd (accepted_sample _) (hr Sample.run)
  · exact fun run _ _ _ => .inl (hgoes run _ rfl rfl)
  · exact fun _ _ _ hc => absurd hc hfails
  · exact fun run _ _ _ => .inl (hgoes run _ rfl rfl)

/-- The payload `x` is no JSON object, and ends up in `latest.jsonl`. -/
theorem not_traceless : ¬ ∀ (p : System Sample.config) (posts : List Post),
    System.Reachable Sample.start p → AllPosts Traceless p posts := by
  intro h
  have hm := (h (Sample.start.play (Sample.running 7)) [⟨7, "x", fun _ => {}⟩]
    (Pool.reach_play _ _ (by decide))).1 rejected_sample
  cases hm.latest "m" .vllm

end GrillPlatform
