import GrillPlatform.Coroutine.Solo
import GrillPlatform.System

/-! One POST of a completion after another. A call that fails before the commit has left the run as
it was; one that fails later has left it done, and is not accepted again. -/

namespace GrillPlatform
open Coroutine RunRepository
variable {cfg : Config}

/-- What holds of the outcome, the world and the created tasks when a program run alone has
ended. -/
def Ends (cfg : Config) (i : Nat) (n : TaskName) (p : Async Unit) (ω : Nat → Env) (w : World)
    (created : List TaskName) (Q : Except Exc Unit → World → List TaskName → Prop) : Prop :=
  let out := p.exec (Pool.solo (orchestrator cfg) i n) ω (w, created)
  Q out.1 out.2.1.1 out.2.1.2

section
variable {i : Nat} {n : TaskName} {ω : Nat → Env} {w : World} {created : List TaskName}
  {Q : Except Exc Unit → World → List TaskName → Prop}

theorem Ends.mono {p : Async Unit} {R : Except Exc Unit → World → List TaskName → Prop}
    (h : Ends cfg i n p ω w created Q) (hQ : ∀ out w' c, Q out w' c → R out w' c) :
    Ends cfg i n p ω w created R := hQ _ _ _ h

theorem ends_query {q : Query} {f : q.Resp → Async Unit} :
    Ends cfg i n ((query q).bind f) ω w created Q ↔
      let t := w.clock + (ω 0).elapsed
      match (q.run (ω 0) t w.db).1 with
      | .ok a => Ends cfg i n (f a) (fun k => ω (k + 1))
          { w with clock := t, db := (q.run (ω 0) t w.db).2 } created Q
      | .error x => Q (.error x) { w with clock := t, db := (q.run (ω 0) t w.db).2 } created := by
  unfold Ends
  simp only [query, Prog.bind, Prog.exec, Pool.solo, World.call, Op.created, Option.toList_none,
    List.append_nil]
  cases (q.run (ω 0) (w.clock + (ω 0).elapsed) w.db).1 <;> rfl

theorem ends_s3 {q : S3Call} {f : q.Resp → Async Unit} :
    Ends cfg i n ((s3 q).bind f) ω w created Q ↔
      let t := w.clock + (ω 0).elapsed
      match (q.run (ω 0) w.s3).1 with
      | .ok a => Ends cfg i n (f a) (fun k => ω (k + 1))
          { w with clock := t, s3 := (q.run (ω 0) w.s3).2 } created Q
      | .error x => Q (.error x) { w with clock := t, s3 := (q.run (ω 0) w.s3).2 } created := by
  unfold Ends
  simp only [s3, Prog.bind, Prog.exec, Pool.solo, World.call, Op.created, Option.toList_none,
    List.append_nil]
  cases (q.run (ω 0) w.s3).1 <;> rfl

theorem ends_createTask {m : TaskName} : Ends cfg i n (createTask m) ω w created Q ↔
    Q (.ok ()) { w with clock := w.clock + (ω 0).elapsed } (created ++ [m]) := Iff.rfl

theorem ends_put {key : S3Key} {body : S3Body} {f : Unit → Async Unit} :
    Ends cfg i n ((s3 (.putObject key body)).bind f) ω w created Q ↔
      let w' :=
        { w with clock := w.clock + (ω 0).elapsed, s3 := Function.update w.s3 key (some body) }
      if (ω 0).fault = .none then Ends cfg i n (f ()) (fun k => ω (k + 1)) w' created Q
      else Q (.error (ω 0).error) (if (ω 0).fault = .before then { w' with s3 := w.s3 } else w')
        created := by
  rw [ends_s3]
  cases hf : (ω 0).fault <;> simp [S3Call.run, Env.guard, hf]

theorem ends_copy {key source : S3Key} {body : S3Body} {f : Unit → Async Unit}
    (hs : w.s3 source = some body) :
    Ends cfg i n ((s3 (.copyObject key source)).bind f) ω w created Q ↔
      let w' :=
        { w with clock := w.clock + (ω 0).elapsed, s3 := Function.update w.s3 key (some body) }
      if (ω 0).fault = .none then Ends cfg i n (f ()) (fun k => ω (k + 1)) w' created Q
      else Q (.error (ω 0).error) (if (ω 0).fault = .before then { w' with s3 := w.s3 } else w')
        created := by
  rw [ends_s3]
  cases hf : (ω 0).fault <;> simp [S3Call.run, Env.guard, hf, hs]

theorem ends_get {key : S3Key} {f : Option S3Body → Async Unit} :
    Ends cfg i n ((s3 (.getObject key)).bind f) ω w created Q ↔
      let w' := { w with clock := w.clock + (ω 0).elapsed }
      if (ω 0).fault = .none then Ends cfg i n (f (w.s3 key)) (fun k => ω (k + 1)) w' created Q
      else Q (.error (ω 0).error) w' created := by
  rw [ends_s3]
  cases hf : (ω 0).fault <;> simp [S3Call.run, Env.guard, hf]

theorem ends_runGet {r : RunId} {f : Option (RunOf r) → Async Unit} {a : Option (RunOf r)}
    (h : RunRepository.get r w.db = .ok (a, w.db)) :
    Ends cfg i n ((query (.runGet r)).bind f) ω w created Q ↔
      let w' := { w with clock := w.clock + (ω 0).elapsed }
      if (ω 0).fault = .none then Ends cfg i n (f a) (fun k => ω (k + 1)) w' created Q
      else Q (.error (ω 0).error) w' created := by
  rw [ends_query]
  cases hf : (ω 0).fault <;> simp [Query.run, Query.tx, Env.guard, hf, h]

theorem ends_completeRun {r : RunId} {url : String} {result : Result} {f : RunOf r → Async Unit}
    {a : RunOf r} {d : Db}
    (h : completeRun r url result (w.clock + (ω 0).elapsed) w.db = .ok (a, d)) :
    Ends cfg i n ((query (.completeRun r url result)).bind f) ω w created Q ↔
      let w' := { w with clock := w.clock + (ω 0).elapsed, db := d }
      if (ω 0).fault = .none then Ends cfg i n (f a) (fun k => ω (k + 1)) w' created Q
      else Q (.error (ω 0).error) (if (ω 0).fault = .before then { w' with db := w.db } else w')
        created := by
  rw [ends_query]
  cases hf : (ω 0).fault <;> simp [Query.run, Query.tx, Env.guard, hf, h]

theorem ends_fails {q : Query} {f : q.Resp → Async Unit}
    (h : (∃ x, q.tx (ω 0).pick (w.clock + (ω 0).elapsed) w.db = .error x) ∨ (ω 0).fault = .before)
    (hQ : ∀ x, Q (.error x) { w with clock := w.clock + (ω 0).elapsed } created) :
    Ends cfg i n ((query q).bind f) ω w created Q := by
  rw [ends_query]
  rcases h with ⟨x, hx⟩ | hf
  · cases hf : (ω 0).fault <;> simp [Query.run, Env.guard, hf, hx, hQ]
  · simp [Query.run, Env.guard, hf, hQ]

end

section
variable {run : Run} {jsonl : String}

theorem uploadMeta_of_ended {t : Time} (h : run.endedAt = some t) : uploadMeta run =
    s3 (.putObject (latestMetaKey run.model run.engine) (.completedRun (runMeta run t))) := by
  rw [uploadMeta, endedAtOrNow, h]
  rfl

theorem updateLeaderboardFor_of_ended {t : Time} (h : run.endedAt = some t) (result : Result)
    (perConcurrency : List Json) : updateLeaderboardFor run result perConcurrency =
      (s3 (.getObject .leaderboard)).bind fun current =>
        (Prog.ofExcept (leaderboardEntries current)).bind fun entries =>
          s3 (.putObject .leaderboard (.leaderboard (withoutPair entries run.model run.engine ++
            [leaderboardEntry run result perConcurrency t]))) := by
  rw [updateLeaderboardFor, endedAtOrNow, h]
  rfl

theorem complete_eq (r : RunId) : RunController.complete cfg r jsonl =
    (query (.runGet r)).bind fun
      | none => .raise (notFound "run not found")
      | some run =>
        if run.1.status ≠ .running then .raise (conflict "run is not running")
        else (RunService.publish cfg run.1 jsonl).bind fun _ => createTask (.releaseNode r) := by
  simp only [RunController.complete, RunService.complete, Prog.bind_eq, Prog.bind_assoc]
  refine congrArg _ (funext fun run => ?_)
  cases run with
  | none => rfl
  | some run => dsimp only; split <;> rfl

theorem publish_bind (f : Unit → Async Unit) : (RunService.publish cfg run jsonl).bind f =
    (s3 (.putObject (runResultsKey run.model run.engine run.id) (.jsonl jsonl))).bind fun _ =>
      (s3 (.copyObject (latestResultsKey run.model run.engine)
        (runResultsKey run.model run.engine run.id))).bind fun _ =>
        (Prog.ofExcept (aggregate cfg.llmGrill jsonl run)).bind fun result =>
          (Prog.ofExcept (aggregatePerConcurrency cfg.llmGrill jsonl)).bind fun perConcurrency =>
            (query (.completeRun run.id (runResultsKey run.model run.engine run.id).text
              result)).bind fun completed => (uploadMeta completed.1).bind fun _ =>
                (updateLeaderboardFor completed.1 result perConcurrency).bind f := by
  simp only [RunService.publish, uploadResults, Prog.bind_eq, Prog.bind_assoc, Prog.pure_eq]
  rfl

end

/-! ## What one POST leaves -/

/-- The read or an upload fails, or the commit fails before it takes effect. -/
def FailsBeforeCommit (ω : Nat → Env) : Prop :=
  (∃ k < 3, (ω k).fault ≠ .none) ∨ (ω 3).fault = .before

/-- The copy to `latest.jsonl` takes effect. -/
def Copies (ω : Nat → Env) : Prop :=
  (ω 0).fault = .none ∧ (ω 1).fault = .none ∧ (ω 2).fault ≠ .before

instance Copies.decidable (ω : Nat → Env) : Decidable (Copies ω) :=
  inferInstanceAs (Decidable (_ ∧ _ ∧ _))

/-- The aggregation takes the payload. -/
def Accepted (cfg : Config) (run : Run) (jsonl : String) : Prop :=
  (aggregate cfg.llmGrill jsonl run).isOk ∧ (aggregatePerConcurrency cfg.llmGrill jsonl).isOk

theorem not_failsBeforeCommit {ω : Nat → Env} (h : ∀ k, (ω k).fault = .none) :
    ¬ FailsBeforeCommit ω := by
  rintro (⟨k, -, hk⟩ | h3)
  · exact hk (h k)
  · rw [h 3] at h3
    cases h3

theorem accepted_ok {run : Run} {jsonl : String} (h : Accepted cfg run jsonl) :
    (∃ result, aggregate cfg.llmGrill jsonl run = .ok result) ∧
      ∃ perConcurrency, aggregatePerConcurrency cfg.llmGrill jsonl = .ok perConcurrency := by
  obtain ⟨h₁, h₂⟩ := h
  constructor
  · cases ha : aggregate cfg.llmGrill jsonl run with
    | error x => rw [ha] at h₁; cases h₁
    | ok result => exact ⟨result, rfl⟩
  · cases ha : aggregatePerConcurrency cfg.llmGrill jsonl with
    | error x => rw [ha] at h₂; cases h₂
    | ok perConcurrency => exact ⟨perConcurrency, rfl⟩

/-- The bucket after the uploads, as far as they took effect. -/
structure Uploaded (run : Run) (jsonl : String) (moved : Prop) [Decidable moved] (b b' : S3) :
    Prop where
  others : ∀ key, key ≠ runResultsKey run.model run.engine run.id →
    key ≠ latestResultsKey run.model run.engine → b' key = b key
  latest : b' (latestResultsKey run.model run.engine) =
    if moved then some (.jsonl jsonl) else b (latestResultsKey run.model run.engine)
  own : moved → b' (runResultsKey run.model run.engine run.id) = some (.jsonl jsonl)

section
variable {i : Nat} {n : TaskName} {ω : Nat → Env} {w : World} {created : List TaskName}
  {run : Run} {jsonl : String} {r : RunId}

theorem complete_refused (h : w.db.status r ≠ some .running) :
    Ends cfg i n (RunController.complete cfg r jsonl) ω w created fun out w' created' =>
      w'.db = w.db ∧ w'.s3 = w.s3 ∧ created' = created ∧ ∃ x, out = .error x := by
  rw [complete_eq]
  cases hg : w.db.runs.get r with
  | none =>
    rw [ends_runGet (get_of_none hg)]
    split <;> exact ⟨rfl, rfl, rfl, _, rfl⟩
  | some run =>
    have hs : run.status ≠ .running := fun e => h (by rw [Db.status_of_get hg, e])
    rw [ends_runGet (get_of_get hg)]
    split
    · dsimp only
      rw [if_pos hs]
      exact ⟨rfl, rfl, rfl, _, rfl⟩
    · exact ⟨rfl, rfl, rfl, _, rfl⟩

theorem uploaded_update {b : S3} {moved : Prop} [Decidable moved] (h : moved) :
    Uploaded run jsonl moved b (Function.update
      (Function.update b (runResultsKey run.model run.engine run.id) (some (.jsonl jsonl)))
      (latestResultsKey run.model run.engine) (some (.jsonl jsonl))) where
  others key ho hl := by rw [Function.update_of_ne hl, Function.update_of_ne ho]
  latest := by rw [Function.update_self, if_pos h]
  own _ := by
    rw [Function.update_of_ne S3Key.noConfusion, Function.update_self]

theorem uploaded_own {b b' : S3} {moved : Prop} [Decidable moved] (h : ¬ moved)
    (hb : ∀ key, key ≠ runResultsKey run.model run.engine run.id → b' key = b key) :
    Uploaded run jsonl moved b b' where
  others key ho _ := hb key ho
  latest := by rw [if_neg h, hb _ S3Key.noConfusion]
  own hm := absurd hm h

theorem complete_uncommitted (hg : w.db.runs.get r = some run) (hs : run.status = .running)
    (h : FailsBeforeCommit ω ∨ w.db.results.get r ≠ none ∨ ¬ Accepted cfg run jsonl) :
    Ends cfg i n (RunController.complete cfg r jsonl) ω w created fun out w' created' =>
      w'.db = w.db ∧ Uploaded run jsonl (Copies ω) w.s3 w'.s3 ∧ created' = created ∧
        ∃ x, out = .error x := by
  have hid : run.id = r := Table.key_of_get hg
  rw [complete_eq, ends_runGet (get_of_get hg)]
  split
  case isFalse h0 =>
    exact ⟨rfl, uploaded_own (fun hm => h0 hm.1) fun _ _ => rfl, rfl, _, rfl⟩
  case isTrue h0 =>
  dsimp only
  rw [if_neg (not_not.2 hs), publish_bind, ends_put]
  split
  case isFalse h1 =>
    refine ⟨?_, uploaded_own (fun hm => h1 hm.2.1) fun key hk => ?_, rfl, _, rfl⟩
    · split <;> rfl
    · split
      · rfl
      · exact Function.update_of_ne hk ..
  case isTrue h1 =>
  rw [ends_copy (Function.update_self ..)]
  split
  case isFalse h2 =>
    split
    case isTrue hb =>
      exact ⟨rfl, uploaded_own (fun hm => hm.2.2 hb) fun key hk => Function.update_of_ne hk .., rfl,
        _, rfl⟩
    case isFalse hb => exact ⟨rfl, uploaded_update ⟨h0, h1, hb⟩, rfl, _, rfl⟩
  case isTrue h2 =>
  -- both uploads are made; what follows leaves the bucket alone
  have hmoved : Copies ω := ⟨h0, h1, fun hb => by rw [h2] at hb; cases hb⟩
  have hu : Uploaded run jsonl (Copies ω) w.s3 _ := uploaded_update hmoved
  cases ha : aggregate cfg.llmGrill jsonl run with
  | error x => exact ⟨rfl, hu, rfl, _, rfl⟩
  | ok result =>
  cases hp : aggregatePerConcurrency cfg.llmGrill jsonl with
  | error x => exact ⟨rfl, hu, rfl, _, rfl⟩
  | ok perConcurrency =>
  refine ends_fails ?_ fun x => ⟨rfl, hu, rfl, x, rfl⟩
  rcases h with (⟨k, hk, hf⟩ | hf) | hr | hn
  · rcases by omega with rfl | rfl | rfl : k = 0 ∨ k = 1 ∨ k = 2
    · exact absurd h0 hf
    · exact absurd h1 hf
    · exact absurd h2 hf
  · exact .inr hf
  · refine .inl ⟨_, completeRun_conflict _ _ (hid ▸ hg) ?_⟩
    rwa [runId_aggregate cfg.llmGrill ha, hid]
  · exact absurd ⟨by rw [ha]; rfl, by rw [hp]; rfl⟩ hn

end

/-- The calls after the commit all succeed. -/
def Through (ω : Nat → Env) (b : S3) : Prop :=
  (∀ k < 3, (ω k).fault = .none) ∧ (leaderboardEntries (b .leaderboard)).isOk

instance Through.decidable (ω : Nat → Env) (b : S3) : Decidable (Through ω b) :=
  inferInstanceAs (Decidable (_ ∧ _))

/-- What the calls after the commit of `run`, completed at `t`, have done. -/
structure Announced (run : Run) (t : Time) (result : Result) (perConcurrency : List Json)
    (ω : Nat → Env) (w : World) (created : List TaskName) (w' : World) (created' : List TaskName) :
    Prop where
  db : w'.db = w.db
  others : ∀ key, key ≠ latestMetaKey run.model run.engine → key ≠ .leaderboard →
    w'.s3 key = w.s3 key
  latestMeta : w'.s3 (latestMetaKey run.model run.engine) =
    if (ω 0).fault = .before then w.s3 (latestMetaKey run.model run.engine)
    else some (.completedRun (runMeta run t))
  leaderboard : Through ω w.s3 → ∃ entries, leaderboardEntries (w.s3 .leaderboard) = .ok entries ∧
    w'.s3 .leaderboard = some (.leaderboard (withoutPair entries run.model run.engine ++
      [leaderboardEntry run result perConcurrency t]))
  released : created' = if Through ω w.s3 then created ++ [.releaseNode run.id] else created

theorem ends_announce {i : Nat} {n : TaskName} {ω : Nat → Env} {w : World}
    {created : List TaskName} {run : Run} {t : Time} (h : run.endedAt = some t) (result : Result)
    (perConcurrency : List Json) :
    Ends cfg i n ((uploadMeta run).bind fun _ =>
      (updateLeaderboardFor run result perConcurrency).bind fun _ =>
        createTask (.releaseNode run.id)) ω w created fun _ w' created' =>
          Announced run t result perConcurrency ω w created w' created' := by
  -- three calls in a row: a failure leaves undone what comes behind it
  rw [uploadMeta_of_ended h, updateLeaderboardFor_of_ended h]
  simp only [Prog.bind_assoc]
  rw [ends_put]
  split
  case isFalse h0 =>
    have hn : ¬ Through ω w.s3 := fun ht => h0 (ht.1 0 (by decide))
    split
    case isTrue hb =>
      exact ⟨rfl, fun _ _ _ => rfl, (if_pos hb).symm, fun h => absurd h hn, (if_neg hn).symm⟩
    case isFalse hb =>
      exact ⟨rfl, fun _ hm _ => Function.update_of_ne hm ..,
        (Function.update_self ..).trans (if_neg hb).symm, fun h => absurd h hn, (if_neg hn).symm⟩
  case isTrue h0 =>
  have hb : (ω 0).fault ≠ .before := by rw [h0]; exact Fault.noConfusion
  rw [ends_get]
  -- the metadata are under another key, so the leaderboard is read as it was
  have hl : Function.update w.s3 (latestMetaKey run.model run.engine)
      (some (.completedRun (runMeta run t))) .leaderboard = w.s3 .leaderboard :=
    Function.update_of_ne S3Key.noConfusion ..
  have hmeta : ∀ key, key ≠ latestMetaKey run.model run.engine → key ≠ .leaderboard →
      Function.update w.s3 (latestMetaKey run.model run.engine)
        (some (.completedRun (runMeta run t))) key = w.s3 key :=
    fun _ hm _ => Function.update_of_ne hm ..
  have hml : latestMetaKey run.model run.engine ≠ .leaderboard := S3Key.noConfusion
  split
  case isFalse h1 =>
    have hn : ¬ Through ω w.s3 := fun ht => h1 (ht.1 1 (by decide))
    exact ⟨rfl, hmeta, (Function.update_self ..).trans (if_neg hb).symm, fun h => absurd h hn,
      (if_neg hn).symm⟩
  case isTrue h1 =>
  dsimp only
  rw [hl]
  cases he : leaderboardEntries (w.s3 .leaderboard) with
  | error x =>
    have hn : ¬ Through ω w.s3 := fun ht => by have := ht.2; rw [he] at this; cases this
    exact ⟨rfl, hmeta, (Function.update_self ..).trans (if_neg hb).symm, fun h => absurd h hn,
      (if_neg hn).symm⟩
  | ok entries =>
  dsimp only [Prog.ofExcept, Prog.bind]
  rw [ends_put]
  split
  case isFalse h2 =>
    have hn : ¬ Through ω w.s3 := fun ht => h2 (ht.1 2 (by decide))
    split
    · exact ⟨rfl, hmeta, (Function.update_self ..).trans (if_neg hb).symm, fun h => absurd h hn,
        (if_neg hn).symm⟩
    · refine ⟨rfl, fun key hm hk => ?_, ?_, fun h => absurd h hn, (if_neg hn).symm⟩
      · exact (Function.update_of_ne hk ..).trans (hmeta key hm hk)
      · dsimp only
        rw [Function.update_of_ne hml, Function.update_self, if_neg hb]
  case isTrue h2 =>
    have ht : Through ω w.s3 := by
      refine ⟨fun k hk => ?_, by rw [he]; rfl⟩
      rcases by omega with rfl | rfl | rfl : k = 0 ∨ k = 1 ∨ k = 2
      · exact h0
      · exact h1
      · exact h2
    refine ends_createTask.2 ⟨rfl, fun key hm hk => ?_, ?_, fun _ => ⟨entries, he, ?_⟩, ?_⟩
    · exact (Function.update_of_ne hk ..).trans (hmeta key hm hk)
    · dsimp only
      rw [Function.update_of_ne hml, Function.update_self, if_neg hb]
    · dsimp only
      rw [Function.update_self]
    · exact (if_pos ht).symm

/-- The commit of a completion, and the uploads before it. -/
structure Committed (run : Run) (jsonl : String) (result : Result) (t : Time) (w w' : World) :
    Prop where
  done : w'.db.runs.get run.id =
    some (completed (runResultsKey run.model run.engine run.id).text t run)
  frame : ∀ r, r ≠ run.id → w'.db.runs.get r = w.db.runs.get r
  inserted : w.db.results.insert result = some w'.db.results
  uploaded : Uploaded run jsonl True w.s3 w'.s3

theorem complete_committed {i : Nat} {n : TaskName} {ω : Nat → Env} {w : World}
    {created : List TaskName} {run : Run} {jsonl : String} {r : RunId} {result : Result}
    {perConcurrency : List Json} (hg : w.db.runs.get r = some run) (hs : run.status = .running)
    (hr : w.db.results.get r = none) (ha : aggregate cfg.llmGrill jsonl run = .ok result)
    (hp : aggregatePerConcurrency cfg.llmGrill jsonl = .ok perConcurrency)
    (hf : ¬ FailsBeforeCommit ω) :
    Ends cfg i n (RunController.complete cfg r jsonl) ω w created fun _ w' created' =>
      ∃ t w₁, Committed run jsonl result t w w₁ ∧
        if (ω 3).fault = .none then Announced (completed
          (runResultsKey run.model run.engine run.id).text t run) t result perConcurrency
          (fun k => ω (k + 4)) w₁ created w' created'
        else w'.db = w₁.db ∧ w'.s3 = w₁.s3 ∧ created' = created := by
  obtain rfl : run.id = r := Table.key_of_get hg
  have hk : ∀ k < 3, (ω k).fault = .none := fun k h => by
    by_contra hne
    exact hf (.inl ⟨k, h, hne⟩)
  have h3 : (ω 3).fault ≠ .before := fun h => hf (.inr h)
  rw [complete_eq, ends_runGet (get_of_get hg), if_pos (hk 0 (by decide))]
  dsimp only
  rw [if_neg (not_not.2 hs), publish_bind, ends_put, if_pos (hk 1 (by decide)),
    ends_copy (Function.update_self ..), if_pos (hk 2 (by decide)), ha, hp]
  dsimp only [Prog.ofExcept, Prog.bind]
  -- the commit reads the clock behind the read of the row and the two uploads
  let t := w.clock + (ω 0).elapsed + (ω 1).elapsed + (ω 2).elapsed + (ω 3).elapsed
  obtain ⟨a, db', ho, -⟩ := completeRun_of_fresh (runResultsKey run.model run.engine run.id).text
    t hg (by rwa [runId_aggregate cfg.llmGrill ha])
  obtain ⟨⟨x, hx, hax, hd⟩, hi⟩ := completeRun_ok ho
  obtain rfl : run = x := Option.some.inj (hg.symm.trans hx)
  refine (ends_completeRun (a := a) (d := db') ho).2 ?_
  have hc : Committed run jsonl result t w { w with
      clock := t, db := db', s3 := Function.update (Function.update w.s3
        (runResultsKey run.model run.engine run.id) (some (.jsonl jsonl)))
        (latestResultsKey run.model run.engine) (some (.jsonl jsonl)) } :=
    ⟨hd, fun r hr => completeRun_other ho hr, hi, uploaded_update trivial⟩
  split
  case isFalse h =>
    exact ⟨_, _, hc, rfl, rfl, rfl⟩
  case isTrue h =>
    dsimp only
    rw [hax]
    exact (ends_announce rfl result perConcurrency).mono fun out w' c hA => ⟨_, _, hc, hA⟩

end GrillPlatform
