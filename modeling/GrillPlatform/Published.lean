import GrillPlatform.Footprint
import GrillPlatform.Lifecycle
import Mathlib.Data.Set.Insert

/-! Published means done. The result row, `latest.meta.json` and the leaderboard are written by a
completion, and five repository methods may give the run another status behind its back. -/

namespace GrillPlatform
open Coroutine RunRepository
variable {cfg : Config}

/-- The run has a result row, or is named by `latest.meta.json` or by a leaderboard entry. -/
inductive Published (r : RunId) (db : Db) (s3 : S3) : Prop
  | result {result : Result} (h : db.results.get r = some result)
  | latest {slug : String} {engine : Engine} {doc : CompletedRunMeta}
      (h : s3 (.latestMeta slug engine) = some (.completedRun doc)) (hr : doc.runId = r)
  | listed {entries : List Json} {e : Json} (h : s3 .leaderboard = some (.leaderboard entries))
      (he : e ∈ entries) (hr : e.names r = true)

/-- The call leaves the status of done and failed runs alone. -/
def Query.keepsFinal (db : Db) : Query → Prop
  | .completeRun r _ result => db.status r ≠ some .failed ∨ (db.results.get result.runId).isSome
  | .failRun r _ | .setFailed r _ _ => db.status r ≠ some .done
  | .setRunning r _ => db.status r ≠ some .done ∧ db.status r ≠ some .failed
  | .requeueForRetry r m => ∀ run ∈ db.runs.get r, m ≤ run.provisionAttempts + 1 ∨
      run.status ∉ [.done, .failed]
  | _ => True

instance Query.decidableKeepsFinal (db : Db) : (c : Query) → Decidable (c.keepsFinal db)
  | .completeRun r .. => inferInstanceAs (Decidable (db.status r ≠ _ ∨ _))
  | .failRun r _ | .setFailed r .. => inferInstanceAs (Decidable (db.status r ≠ _))
  | .setRunning r _ => inferInstanceAs (Decidable (db.status r ≠ _ ∧ db.status r ≠ _))
  | .requeueForRetry r _ => inferInstanceAs (Decidable (∀ run ∈ db.runs.get r, _))
  | .runGet _ | .claimQueued .. | .countLiveByType | .hasActiveRun .. | .runCreate _
  | .setLogsUrl .. | .setPhase .. | .claimRunningTimedOut _ | .getOrphanedProvisioning
  | .claimProvisioningTimedOut _ | .nodeGet _ | .nodeCreate _ | .nodeSave _
  | .createProvisioning .. | .setBusy .. | .getLeaked | .setDownByRun _ => isTrue trivial

def FinalKept : System cfg → Step cfg → Prop := System.Meets fun db c => c.keepsFinal db

instance FinalKept.decidable (p : System cfg) (l : Step cfg) : Decidable (FinalKept p l) :=
  inferInstanceAs (Decidable (System.Meets _ p l))

theorem RowWrite.final_kept {now : Time} {q : Query} {db : Db} {run run' : Run}
    (h : RowWrite now q run run') (hg : db.runs.get run.id = some run) (hk : q.keepsFinal db)
    (hfresh : ∀ r url result, q = .completeRun r url result → db.results.get result.runId = none)
    (hf : run.status.final) : run'.status = run.status := by
  have hs := Db.status_of_get hg
  cases h with
  | claim hq => rcases hf with h | h <;> cases hq.symm.trans h
  | complete =>
    rcases hf with h | h
    · exact h.symm
    · rcases hk with hk | hk
      · exact absurd (h ▸ hs) hk
      · rw [hfresh _ _ _ rfl] at hk
        cases hk
  | fail | failed =>
    rcases hf with h | h
    · exact absurd (h ▸ hs) hk
    · exact h.symm
  | running =>
    rcases hf with h | h
    · exact absurd (h ▸ hs) hk.1
    · exact absurd (h ▸ hs) hk.2
  | logs | phase | exhausted => rfl
  | reapRunning hc =>
    have h : run.status = .running := (of_decide_eq_true hc).1
    rcases hf with hf | hf <;> cases h.symm.trans hf
  | reapProvisioning hc =>
    have h : run.status = .provisioning := (of_decide_eq_true hc).1
    rcases hf with hf | hf <;> cases h.symm.trans hf
  | requeue hm =>
    have h := (hk run hg).resolve_left hm
    rcases hf with hf | hf <;> simp [hf] at h

theorem final_step {p q : System cfg} {l : Step cfg} (hc : FinalKept p l) (hs : p.step l = some q)
    {r : RunId} {s : RunStatus} (hf : s.final) (h : p.world.db.status r = some s) :
    q.world.db.status r = some s := by
  rcases System.step_db hs with he | ⟨c, e, t, a, hq, ha⟩
  · rwa [he]
  rcases hc _ hq with hb | hk
  · rwa [System.step_query hs hq, Query.run_before hb]
  obtain ⟨run, hg, rfl⟩ := Db.get_of_status h
  rcases c.rowStep ha r with he | ⟨x, y, hx, hy, hw⟩ | ⟨_, _, _, hx, _⟩
  · exact Db.status_of_get (he.trans hg)
  · cases hx.symm.trans hg
    obtain rfl := Table.key_of_get hg
    rw [Db.status_of_get hy, hw.final_kept hg hk
      (by rintro _ _ _ rfl; exact completeRun_fresh ha) hf]
  · cases hx.symm.trans hg

theorem final_kept {p₀ p : System cfg} (h : Pool.Reach FinalKept p₀ p) {r : RunId} {s : RunStatus}
    (hf : s.final) (hs : p₀.world.db.status r = some s) : p.world.db.status r = some s :=
  h.invariant (I := fun p => p.world.db.status r = some s) hs fun _ _ _ hI hc hst =>
    final_step hc hst hf hI

/-- A task names in what it writes to the bucket only runs it knows to be done: the run it has
completed, and those the leaderboard named when it read it. -/
def publishes (γ : Set RunId) : Op → Prop
  | .db (.completeRun r _ result) => result.runId = r
  | .s3 (.putObject _ (.completedRun doc)) => doc.runId ∈ γ
  | .s3 (.putObject _ (.leaderboard entries)) => ∀ e ∈ entries, ∀ r, e.names r = true → r ∈ γ
  | .s3 (.copyObject key _) => ∃ slug engine, key = .latestResults slug engine
  | _ => True

def learns (γ : Set RunId) : (op : Op) → op.Resp → Set RunId
  | .db (.completeRun r ..), .ok _ => insert r γ
  | .s3 (.getObject .leaderboard), .ok (some (.leaderboard entries)) =>
    {r | ∃ e ∈ entries, e.names r = true} ∪ γ
  | _, _ => γ

def TaskName.knows (_ : TaskName) : Set RunId := ∅

def publication : Protocol sig (Set RunId) := ⟨publishes, learns⟩

def Quiet : Op → Prop
  | .db (.completeRun ..) | .s3 (.putObject _ (.completedRun _))
  | .s3 (.putObject _ (.leaderboard _)) | .s3 (.copyObject ..) | .s3 (.getObject _) => False
  | _ => True

theorem publishes_quiet {γ : Set RunId} {op : Op} (h : Quiet op) :
    publishes γ op ∧ ∀ a, learns γ op a = γ := by
  cases op with
  | db q => cases q <;> first | exact h.elim | exact ⟨trivial, fun _ => rfl⟩
  | s3 q =>
    cases q with
    | putObject key body => cases body <;> first | exact h.elim | exact ⟨trivial, fun _ => rfl⟩
    | headObject => exact ⟨trivial, fun _ => rfl⟩
    | _ => exact h.elim
  | _ => exact ⟨trivial, fun _ => rfl⟩

theorem quiet_maintains {α : Type} {I : Set RunId → Prop} {p : Async α}
    (hp : p.Calls (S := sig) Quiet) : p.Maintains publication I :=
  hp.maintains fun γ _ h hop => ⟨(publishes_quiet hop).1, fun a => by
    rw [show publication.post γ _ a = γ from (publishes_quiet hop).2 a]; exact h⟩

theorem quiet_of_may {n : TaskName} {op : Op} (h : n.may cfg op)
    (hn : ∀ r jsonl, n ≠ .request (.complete r jsonl)) : Quiet op := by
  cases op with
  | db q =>
    cases q with
    | completeRun =>
      cases n with
      | request req =>
        cases req with
        | complete r jsonl => exact absurd rfl (hn r jsonl)
        | _ => exact h.elim
      | _ => exact h.elim
    | _ => trivial
  | s3 q =>
    cases n with
    | request req =>
      cases req with
      | complete r jsonl => exact absurd rfl (hn r jsonl)
      | attachLogs r body =>
        cases q with
        | putObject key content => cases content <;> trivial
        | _ => exact h.elim
      | submit force modelFilter =>
        cases q with
        | putObject key content => cases key <;> cases content <;> first | exact h.elim | trivial
        | headObject => trivial
        | _ => exact h.elim
      | _ => exact h.elim
    | _ => exact h.elim
  | _ => trivial

section
variable {γ : Set RunId}

theorem endedAtOrNow_follows {α : Type} {run : Run} {f : Time → Async α}
    (hf : ∀ t, (f t).Follows publication (fun _ _ => True) γ) :
    ((endedAtOrNow run).bind f).Follows publication (fun _ _ => True) γ :=
  (quiet_maintains (endedAtOrNow_calls trivial run)).follows_bind hf

theorem updateLeaderboardFor_follows {run : Run} {result : Result} {perConcurrency : List Json}
    (hr : run.id ∈ γ) : (updateLeaderboardFor run result perConcurrency).Follows publication
      (fun _ _ => True) γ := by
  refine follows_s3_bind trivial (fun current => ?_) fun _ => trivial
  cases he : leaderboardEntries current with
  | error x => trivial
  | ok entries =>
    refine endedAtOrNow_follows fun t => ⟨?_, fun a => (Prog.follows_ofExcept a).2 trivial⟩
    intro e hmem r hname
    rcases List.mem_append.1 hmem with hmem | hmem
    -- an entry that was read
    · have hmem : e ∈ entries := (List.mem_filter.1 hmem).1
      match current with
      | none => cases he; cases hmem
      | some (.leaderboard es) =>
        simp only [leaderboardEntries] at he
        split at he
        · cases he
          exact .inl ⟨e, hmem, hname⟩
        · cases he
    · rw [List.mem_singleton.1 hmem] at hname
      rw [names_leaderboardEntry, decide_eq_true_iff] at hname
      rw [← uuidStr_injective hname]
      match current with
      | some (.leaderboard es) => exact .inr hr
      | none | some (.jsonl _) | some (.log _) | some (.completedRun _) => exact hr

theorem uploadResults_maintains (run : Run) (jsonl : String) :
    (uploadResults run jsonl).Maintains publication fun γ' => γ' = γ := by
  have hput : ∀ key, (s3 (.putObject key (.jsonl jsonl))).Maintains publication fun γ' => γ' = γ :=
    fun key => quiet_maintains (calls_s3 trivial)
  refine Prog.maintains_bind (hput _) fun _ => Prog.maintains_bind ?_ fun _ => Prog.maintains_pure _
  rintro γ' rfl
  exact ⟨⟨_, _, rfl⟩, fun a => (Prog.follows_ofExcept a).2 rfl⟩

theorem uploadMeta_maintains {run : Run} (hr : run.id ∈ γ) :
    (uploadMeta run).Maintains publication fun γ' => γ' = γ := by
  refine Prog.maintains_bind (quiet_maintains (endedAtOrNow_calls trivial run)) fun t => ?_
  rintro γ' rfl
  exact ⟨hr, fun a => (Prog.follows_ofExcept a).2 rfl⟩

theorem publish_follows (cfg : Config) (run : Run) (jsonl : String) :
    (RunService.publish cfg run jsonl).Follows publication (fun _ _ => True) γ := by
  refine (uploadResults_maintains run jsonl).follows_bind fun url => ?_
  show ((Prog.ofExcept (aggregate cfg.llmGrill jsonl run)).bind _).Follows _ _ _
  cases ha : aggregate cfg.llmGrill jsonl run with
  | error x => trivial
  | ok result =>
    show ((Prog.ofExcept (aggregatePerConcurrency cfg.llmGrill jsonl)).bind _).Follows _ _ _
    cases hp : aggregatePerConcurrency cfg.llmGrill jsonl with
    | error x => trivial
    | ok perConcurrency =>
      refine follows_query_bind (runId_aggregate _ ha) (fun completed => ?_) fun _ => trivial
      have hid : completed.1.id ∈ insert run.id γ := .inl completed.2
      exact (uploadMeta_maintains hid).follows_bind fun _ => updateLeaderboardFor_follows hid

theorem complete_follows (cfg : Config) (r : RunId) (jsonl : String) :
    (RunController.complete cfg r jsonl).Follows publication (fun _ _ => True) γ := by
  have hservice : (RunService.complete cfg r jsonl).Follows publication (fun _ _ => True) γ := by
    refine follows_query_bind trivial (fun found => ?_) fun _ => trivial
    match found with
    | none => trivial
    | some run =>
      dsimp only
      split
      · trivial
      · exact publish_follows cfg run.1 jsonl
  refine Prog.follows_bind.2 (hservice.mono fun γ' e _ => ?_)
  cases e with
  | error x => trivial
  | ok _ => exact ⟨trivial, fun _ => trivial⟩

theorem body_publication (cfg : Config) (n : TaskName) :
    (n.body cfg).Follows publication (fun _ _ => True) n.knows := by
  by_cases hn : ∃ r jsonl, n = .request (.complete r jsonl)
  · obtain ⟨r, jsonl, rfl⟩ := hn
    exact complete_follows cfg r jsonl
  · have hquiet : (n.body cfg).Calls (S := sig) Quiet := (body_calls cfg n).mono fun op h =>
      quiet_of_may h fun r jsonl he => hn ⟨r, jsonl, he⟩
    exact (quiet_maintains (I := fun _ => True) hquiet).follows trivial fun _ _ _ => trivial

end

/-! ## Every published run is done -/

/-- A repository call stores no result but that of a run it completes. -/
theorem Query.resultStep {q : Query} {pick : List RunId} {now : Time} {db db' : Db} {a : q.Resp}
    (h : q.tx pick now db = .ok (a, db')) : db'.results = db.results ∨
      ∃ r url result, q = .completeRun r url result ∧ db.results.insert result = some db'.results ∧
        db'.status r = some .done := by
  cases q with
  | completeRun r url result =>
    obtain ⟨⟨run, -, -, hg⟩, hi⟩ := completeRun_ok h
    exact .inr ⟨r, url, result, rfl, hi, Db.status_of_get hg⟩
  | nodeCreate | nodeSave | createProvisioning | setBusy | setDownByRun =>
    exact .inl (frame_nodes h rfl).2
  | _ =>
    rcases (frame_runs h rfl).2 with hr | ⟨_, _, _, hq⟩
    · exact .inl hr
    · cases hq

/-- Every published run is done, and so is every run a task knows to be done. -/
structure Honest (p : System cfg) (g : Nat → Set RunId) : Prop where
  done : ∀ r, Published r p.world.db p.world.s3 → p.world.db.status r = some .done
  known : ∀ i < p.tasks.length, ∀ r ∈ g i, p.world.db.status r = some .done

section
variable {p : System cfg} {g : Nat → Set RunId} {i : Nat} {n : (orchestrator cfg).Name}
    {op : sig.Op}
  {next : sig.Resp op → Prog sig Exc Unit} {e : (orchestrator cfg).Env} {r : RunId}

theorem s3_after {key : S3Key} {body : S3Body}
    (h : (p.after i n op next e).world.s3 key = some body) : p.world.s3 key = some body ∨
      (op : Op) = .s3 (.putObject key body) ∨ ∃ source,
      (op : Op) = .s3 (.copyObject key source) := by
  cases op with
  | s3 q =>
    rcases q.run_key e p.world.s3 key with he | ⟨body', rfl, he⟩ | ⟨source, rfl⟩
    · exact .inl (he.symm.trans h)
    · cases he.symm.trans h
      exact .inr (.inl rfl)
    · exact .inr (.inr ⟨source, rfl⟩)
  | _ => exact .inl h

theorem published_after (ht : p.tasks[i]? = some ⟨n, .call op next⟩) (ha : publishes (g i) op)
    (hr : Published r (p.after i n op next e).world.db (p.after i n op next e).world.s3) :
    Published r p.world.db p.world.s3 ∨ r ∈ g i ∨
    (p.after i n op next e).world.db.status r = some .done := by
  have hstep : p.step (.run i e) = some (p.after i n op next e) := Pool.step_run ht
  cases hr with
  | result h =>
    rcases System.step_db hstep with he | ⟨c, e', t, a, hc, htx⟩
    · exact .inl (.result (by rwa [he] at h))
    rcases c.resultStep htx with he | ⟨r', url, result, rfl, hi, hd⟩
    · exact .inl (.result (by rwa [he] at h))
    rw [System.queries_run ht] at hc
    rw [Table.get_insert hi] at h
    split at h
    · rename_i hrun
      cases op with
      | db q =>
        cases hc
        have hid : result.runId = r' := ha
        rw [← hrun, hid]
        exact .inr (.inr hd)
      | _ => cases hc
    · exact .inl (.result h)
  | latest h hdoc =>
    rcases s3_after h with h | rfl | ⟨source, rfl⟩
    · exact .inl (.latest h hdoc)
    · exact .inr (.inl (hdoc ▸ ha))
    · obtain ⟨_, _, hk⟩ := ha
      cases hk
  | listed h hmem hname =>
    rcases s3_after h with h | rfl | ⟨source, rfl⟩
    · exact .inl (.listed h hmem hname)
    · exact .inr (.inl (ha _ hmem r hname))
    · obtain ⟨_, _, hk⟩ := ha
      cases hk

theorem getObject_ok {e : Env} {s : S3} {key : S3Key} {a : Option S3Body}
    (h : ((S3Call.getObject key).run e s).1 = .ok a) : a = s key := by
  replace h : (e.guard s (.ok (s key), s)).1 = .ok a := h
  unfold Env.guard at h
  split at h <;> cases h
  rfl

theorem learns_after (ht : p.tasks[i]? = some ⟨n, .call op next⟩)
    (hr : r ∈ learns (g i) op ((orchestrator cfg).handle i n op e p.world).1) :
    r ∈ g i ∨ Published r p.world.db p.world.s3 ∨
    (p.after i n op next e).world.db.status r = some .done := by
  -- a run is known to be done from its completion, or from the leaderboard that was read
  cases op with
  | db q =>
    cases q with
    | completeRun r' url result =>
      replace hr : r ∈ learns (g i) (.db (.completeRun r' url result))
        ((Query.completeRun r' url result).run e (p.world.clock + e.elapsed) p.world.db).1 := hr
      cases ha : ((Query.completeRun r' url result).run e
        (p.world.clock + e.elapsed) p.world.db).1 with
      | error x =>
        rw [ha] at hr
        exact .inl hr
      | ok a =>
        rw [ha] at hr
        rcases hr with rfl | hr
        · obtain ⟨⟨run, -, -, hg⟩, -⟩ := completeRun_ok (Query.run_ok ha)
          exact .inr (.inr (Db.status_of_get hg))
        · exact .inl hr
    | _ => exact .inl hr
  | s3 q =>
    cases q with
    | getObject key =>
      cases key with
      | leaderboard =>
        replace hr : r ∈ learns (g i) (.s3 (.getObject .leaderboard))
          ((S3Call.getObject .leaderboard).run e p.world.s3).1 := hr
        match ha : ((S3Call.getObject .leaderboard).run e p.world.s3).1 with
        | .ok (some (.leaderboard entries)) =>
          rw [ha] at hr
          rcases hr with ⟨x, hmem, hname⟩ | hr
          · exact .inr (.inl (.listed (getObject_ok ha).symm hmem hname))
          · exact .inl hr
        | .ok (some (.jsonl _)) | .ok (some (.log _)) | .ok (some (.completedRun _))
        | .ok (some (.models _)) | .ok (some (.scenarios _)) | .ok (some (.engines _)) | .ok none
        | .error _ =>
          rw [ha] at hr
          exact .inl hr
      | _ => exact .inl hr
    | _ => exact .inl hr
  | _ => exact .inl hr

theorem Honest.after (hJ : Honest p g) (ht : p.tasks[i]? = some ⟨n, .call op next⟩)
    (ha : publishes (g i) op) (hc : FinalKept p (.run i e)) :
    Honest (p.after i n op next e) (Pool.ghost publication TaskName.knows g i op
      ((orchestrator cfg).handle i n op e p.world).1 p.tasks.length
      ((orchestrator cfg).handle i n op e p.world).2.2) := by
  have hi := Pool.lt_of_getElem? ht
  have hstep : p.step (.run i e) = some (p.after i n op next e) := Pool.step_run ht
  have hkept : ∀ r, p.world.db.status r = some .done →
      (p.after i n op next e).world.db.status r = some .done := fun r =>
    final_step hc hstep (.inl rfl)
  refine ⟨fun r hr => ?_, fun j hj r hr => ?_⟩
  · rcases published_after ht ha hr with h | h | h
    · exact hkept r (hJ.done r h)
    · exact hkept r (hJ.known i hi r h)
    · exact h
  · rcases Pool.lt_length_after hj with rfl | ⟨hne, hlt⟩ | ⟨rfl, m, hm⟩
    · rw [Pool.ghost_self] at hr
      rcases learns_after ht hr with h | h | h
      · exact hkept r (hJ.known j hi r h)
      · exact hkept r (hJ.done r h)
      · exact h
    · rw [Pool.ghost_other hne (Nat.ne_of_lt hlt)] at hr
      exact hkept r (hJ.known j hlt r hr)
    · rw [hm, Pool.ghost_new hi] at hr
      cases hr

end

theorem honest_of_reach {w : World} {p : System cfg}
    (hw : ∀ r, Published r w.db w.s3 → w.db.status r = some .done)
    (h : Pool.Reach FinalKept (System.start cfg w) p) : ∃ g, Honest p g := by
  obtain ⟨g, -, hJ⟩ := h.tracked publication TaskName.knows (body_publication cfg) Honest
    ⟨_, Pool.Tracked.boot _ (body_publication cfg), ⟨hw, fun _ _ _ h => h.elim⟩⟩
    (fun p g i e n op next _ hJ ht ha hc => hJ.after ht ha hc)
    (fun p g n hJ _ _ => ⟨hJ.done, fun j hj r hr => by
      rcases Pool.update_cases hj with ⟨hlt, hg⟩ | ⟨-, hg⟩
      · rw [hg] at hr
        exact hJ.known j hlt r hr
      · rw [hg] at hr
        cases hr⟩)
    fun p g e hJ _ => ⟨hJ.done, fun _ _ _ h => h.elim⟩
  exact ⟨g, hJ⟩

/-- As long as no call changes the status of a done or failed run, everything published is done and
stays done, and a failed run is not published any more. -/
theorem published_of_finalKept {w : World} {p₀ p : System cfg}
    (hw : ∀ r, Published r w.db w.s3 → w.db.status r = some .done)
    (h₀ : Pool.Reach FinalKept (System.start cfg w) p₀) (h : Pool.Reach FinalKept p₀ p)
    (r : RunId) :
    (Published r p.world.db p.world.s3 → p.world.db.status r = some .done) ∧
    (Published r p₀.world.db p₀.world.s3 → p.world.db.status r = some .done) ∧
    (p₀.world.db.status r = some .failed → ¬ Published r p.world.db p.world.s3) := by
  obtain ⟨g₀, hJ₀⟩ := honest_of_reach hw h₀
  obtain ⟨g, hJ⟩ := honest_of_reach hw (h₀.trans h)
  refine ⟨hJ.done r, fun hp => final_kept h (.inl rfl) (hJ₀.done r hp), fun hf hp => ?_⟩
  have hfailed := final_kept h (.inr rfl) hf
  cases (hJ.done r hp).symm.trans hfailed

theorem Published.of_result {r : RunId} {db : Db} {s3 : S3} (h : (db.results.get r).isSome) :
    Published r db s3 := by
  obtain ⟨result, h⟩ := Option.isSome_iff_exists.1 h
  exact .result h

theorem published_of_completed :
    let p := Sample.start.play (Sample.completed 7)
    Published 7 p.world.db p.world.s3 ∧ p.world.db.status 7 = some .done := by
  have h := published_of_finalKept (w := Sample.world) (fun r hr => by
      cases hr with
      | result h | latest h | listed h => cases h)
    (Pool.reach_play_of_obeys Sample.start (Sample.completed 7) (by decide) (by decide)) .init 7
  exact ⟨.of_result (by decide), h.1 (.of_result (by decide))⟩

/-- The watchdog claims the run while its completion uploads; the completion commits, and then the
abort task fails the run again. -/
theorem published_not_done : ¬ ∀ (p : System Sample.config) (r : RunId),
    System.Reachable Sample.start p → Published r p.world.db p.world.s3 →
    p.world.db.status r = some .done := by
  intro h
  have hp :
      (Sample.start.exec (Sample.reaped 7 ++ .run 5 {} :: Sample.steps 6 9)).isSome := by decide
  exact absurd (h _ 7 (Pool.reach_play _ _ hp) (.of_result (by decide))) (by decide)

end GrillPlatform
