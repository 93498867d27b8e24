import GrillPlatform.ActivePairs
import GrillPlatform.Grounded

/-! Finished benchmarks are not repeated. A completion leaves the active runs when it commits and
writes `latest.meta.json` later; `submit` looks for the object first and for an active run
second. -/

namespace GrillPlatform
open Coroutine RunRepository
variable {cfg : Config} {w : World}

/-- Submits without force, completions, and the releases these create. -/
def TaskName.benches : TaskName → Bool
  | .request (.submit false _) | .request (.complete ..) | .releaseNode _ => true
  | _ => false

def Benching (p : System cfg) : Step cfg → Prop
  | .run i _ => ∀ t ∈ p.tasks[i]?, TaskName.benches t.name = true
  | .arrive n => TaskName.benches n = true
  | .crash _ => False

instance Benching.decidable (p : System cfg) : (l : Step cfg) → Decidable (Benching p l)
  | .run i _ =>
    have : ∀ t : Task (orchestrator cfg), Decidable (TaskName.benches t.name = true) := fun _ =>
      inferInstance
    inferInstanceAs (Decidable (∀ t ∈ p.tasks[i]?, TaskName.benches t.name = true))
  | .arrive n => inferInstanceAs (Decidable (TaskName.benches n = true))
  | .crash _ => isFalse id

/-- A run is created only for a pair none of whose runs is done. -/
def Query.fresh (db : Db) : Query → Prop
  | .runCreate run => ∀ x ∈ db.runs.rows, x.pair = run.pair → x.status ≠ .done
  | _ => True

instance Query.decidableFresh (db : Db) : (q : Query) → Decidable (q.fresh db)
  | .runCreate _ => inferInstanceAs (Decidable (∀ x ∈ db.runs.rows, _))
  | .runGet _ | .claimQueued .. | .countLiveByType | .hasActiveRun .. | .completeRun ..
  | .failRun ..
  | .setRunning .. | .setLogsUrl .. | .setPhase .. | .claimRunningTimedOut _
  | .getOrphanedProvisioning | .claimProvisioningTimedOut _ | .requeueForRetry .. | .setFailed ..
  | .nodeGet _ | .nodeCreate _ | .nodeSave _ | .createProvisioning .. | .setBusy .. | .getLeaked
  | .setDownByRun _ => isTrue trivial

inductive Bench where
  | other
  | idle
  /-- `submit` has found no object under the key. -/
  | headed (key : S3Key)
  /-- ... and then no active run of the pair. -/
  | cleared (k : String × Engine)
  /-- `complete` has read the run as running. -/
  | publishing (r : RunId)
  /-- `complete` has committed, and `latest.meta.json` is still to be written. -/
  | marking (key : S3Key)
  deriving DecidableEq

namespace Bench

def allows : Bench → Op → Prop
  | .other, _ => True
  | γ, .db (.runGet _) | γ, .s3 (.headObject _) => γ = .idle
  | γ, .db (.hasActiveRun m e) => γ = .headed (latestMetaKey m e)
  | γ, .db (.runCreate run) => γ = .cleared run.pair ∧ run.status = .queued
  | γ, .db (.completeRun r ..) => γ = .publishing r
  | γ, .s3 (.putObject key (.completedRun _)) => γ = .marking key
  | _, .db (.setDownByRun _) => True
  | _, .db _ => False
  | _, _ => True

def after : Bench → (op : Op) → op.Resp → Bench
  | .other, _, _ => .other
  | _, .s3 (.headObject key), .ok false => .headed key
  | _, .db (.hasActiveRun m e), .ok false => .cleared (m, e)
  | γ, .db (.runGet r), .ok (some run) => if run.1.status = .running then .publishing r else γ
  | _, .db (.completeRun ..), .ok run => .marking (latestMetaKey run.1.model run.1.engine)
  | _, .db (.hasActiveRun ..), _ | _, .db (.runCreate _), _ => .idle
  | _, .s3 (.putObject _ (.completedRun _)), _ => .idle
  | γ, _, _ => γ

/-- Neither between the two looks of `submit` nor between a commit and its upload. -/
def Settled : Bench → Prop
  | .headed _ | .marking _ => False
  | _ => True

end Bench

def TaskName.bench (n : TaskName) : Bench := if n.benches then .idle else .other

def Neither : Op → Prop
  | .db (.setDownByRun _) => True
  | .db _ | .s3 (.headObject _) | .s3 (.putObject _ (.completedRun _)) => False
  | _ => True

theorem Bench.neither {γ : Bench} {op : Op} (h : Neither op) :
    γ.allows op ∧ ∀ a, γ.after op a = γ := by
  cases op with
  | db q => cases q <;> first | exact h.elim | (cases γ <;> exact ⟨trivial, fun _ => rfl⟩)
  | s3 q =>
    cases q with
    | putObject key body =>
      cases body <;> first | exact h.elim | (cases γ <;> exact ⟨trivial, fun _ => rfl⟩)
    | headObject => exact h.elim
    | _ => cases γ <;> exact ⟨trivial, fun _ => rfl⟩
  | _ => cases γ <;> exact ⟨trivial, fun _ => rfl⟩

def benching : Protocol sig Bench := ⟨Bench.allows, Bench.after⟩

section
variable {α β : Type} {Q : Bench → Except Exc β → Prop} {γ : Bench}

theorem neither_follows {p : Async β} (hp : p.Calls (S := sig) Neither) (hQ : ∀ e, Q γ e) :
    p.Follows benching Q γ := by
  have hmaintains : p.Maintains benching (· = γ) := hp.maintains fun γ' op h hop =>
    ⟨(Bench.neither hop).1, fun a => ((Bench.neither hop).2 a).trans h⟩
  refine hmaintains.follows rfl fun γ' e h => ?_
  subst h
  exact hQ e

theorem neither_bind {p : Async α} {f : α → Async β} (hp : p.Calls (S := sig) Neither)
    (hf : ∀ a, (f a).Follows benching Q γ) (hQ : ∀ x, Q γ (.error x)) :
    (p.bind f).Follows benching Q γ := by
  refine Prog.follows_bind.2 (neither_follows hp fun e => ?_)
  cases e with
  | ok a => exact hf a
  | error x => exact hQ x

end

/-- A step of `submit` leaves nothing open. -/
def Bench.Ending {α : Type} (γ : Bench) : Except Exc α → Prop
  | .ok _ => γ = .idle
  | .error _ => γ.Settled

theorem create_follows (body : RunCreate) {k : String × Engine}
    (hk : (body.model, body.engine) = k) :
    (RunService.create body).Follows benching Bench.Ending (.cleared k) := by
  refine ⟨trivial, fun _ => ⟨trivial, fun _ => ⟨⟨congrArg _ hk.symm, rfl⟩, fun e => ?_⟩⟩⟩
  exact (Prog.follows_ofExcept e).2 (by cases e <;> trivial)

theorem submitEntry_follows (entry : ModelEntry) (out : BenchService.Submission) :
    (BenchService.submitEntry false entry out).Follows benching Bench.Ending .idle := by
  refine follows_s3_bind rfl (fun found => ?_) fun _ => trivial
  cases found with
  | true => rfl
  | false =>
    refine follows_query_bind rfl (fun active => ?_) fun _ => trivial
    cases active with
    | true => rfl
    | false =>
      have hhf : (BenchService.checkHfExists entry.model).Calls (S := sig) Neither :=
        ⟨trivial, calls_answer_bind.2 fun found => by cases found <;> trivial⟩
      have hcreate : (BenchService.createRun entry).Follows benching Bench.Ending
          (.cleared (entry.model, entry.engine)) := by
        unfold BenchService.createRun
        split
        · exact create_follows _ rfl
        · trivial
      refine neither_bind hhf (fun _ => ?_) fun _ => trivial
      refine Prog.follows_bind.2 (hcreate.mono fun γ e h => ?_)
      cases e with
      | error => exact h
      | ok run => exact h

theorem submitEntries_follows (entries : List ModelEntry) (out : BenchService.Submission) :
    (BenchService.submitEntries false entries out).Follows benching Bench.Ending .idle := by
  induction entries generalizing out with
  | nil => rfl
  | cons entry rest ih =>
    refine Prog.follows_bind.2 ((submitEntry_follows entry out).mono fun γ e h => ?_)
    cases e with
    | error => exact h
    | ok out' =>
      obtain rfl : γ = .idle := h
      exact ih out'

theorem submit_follows (cfg : Config) (modelFilter : Option String) :
    (BenchService.submit cfg false modelFilter).Follows benching Bench.Ending .idle := by
  refine follows_answer (fun allEntries _ => ?_) fun _ _ => trivial
  refine neither_bind (publishCatalogs_calls cfg _ (fun _ => trivial) (fun _ => trivial)
    fun _ => trivial) (fun _ => ?_) fun _ => trivial
  cases modelFilter with
  | none => exact submitEntries_follows _ _
  | some needle =>
    dsimp only
    split
    · trivial
    · exact submitEntries_follows _ _

theorem publish_benching (cfg : Config) (run : Run) (jsonl : String) :
    (RunService.publish cfg run jsonl).Follows benching (fun γ _ => γ.Settled)
      (.publishing run.id) := by
  have hnow : ∀ x : Run, (endedAtOrNow x).Calls (S := sig) Neither := endedAtOrNow_calls trivial
  have hupload : (uploadResults run jsonl).Calls (S := sig) Neither :=
    calls_s3_bind.2 ⟨trivial, fun _ => calls_s3_bind.2 ⟨trivial, fun _ => trivial⟩⟩
  refine neither_bind hupload (fun url => ?_) fun _ => trivial
  refine follows_answer (fun result _ => ?_) fun _ _ => trivial
  refine follows_answer (fun perConcurrency _ => ?_) fun _ _ => trivial
  refine follows_query_bind rfl (fun completed => ?_) fun _ => trivial
  -- committed: the next object written is the one that marks the pair
  have hmeta : (uploadMeta completed.1).Follows benching (fun γ _ => γ = .idle)
      (.marking (latestMetaKey completed.1.model completed.1.engine)) := by
    have hread : (endedAtOrNow completed.1).Follows benching (fun γ e => e.isOk ∧ γ =
        .marking (latestMetaKey completed.1.model completed.1.engine))
        (.marking (latestMetaKey completed.1.model completed.1.engine)) := by
      unfold endedAtOrNow
      split
      · exact ⟨rfl, rfl⟩
      · exact ⟨trivial, fun _ => ⟨rfl, rfl⟩⟩
    refine Prog.follows_bind.2 (hread.mono fun γ e h => ?_)
    obtain ⟨hok, rfl⟩ := h
    cases e with
    | error => cases hok
    | ok t => exact ⟨rfl, fun e => (Prog.follows_ofExcept e).2 rfl⟩
  refine Prog.follows_bind.2 (hmeta.mono fun γ e h => ?_)
  subst h
  cases e with
  | error => trivial
  | ok =>
    refine neither_follows ?_ fun _ => trivial
    refine calls_s3_bind.2 ⟨trivial, fun _ => Prog.calls_bind (Prog.calls_ofExcept _) fun _ => ?_⟩
    exact Prog.calls_bind (hnow _) fun _ => calls_s3 trivial

theorem complete_benching (cfg : Config) (r : RunId) (jsonl : String) :
    (RunController.complete cfg r jsonl).Follows benching (fun γ _ => γ.Settled) .idle := by
  have hservice : (RunService.complete cfg r jsonl).Follows benching (fun γ _ => γ.Settled)
      .idle := by
    refine follows_query_bind rfl (fun found => ?_) fun _ => trivial
    match found with
    | none => trivial
    | some ⟨run, hr⟩ =>
      subst hr
      dsimp only
      split
      · rename_i hrun
        rw [show benching.post .idle (.db (.runGet run.id)) (.ok (some ⟨run, rfl⟩)) = .idle from
          if_neg hrun]
        trivial
      · rename_i hrun
        rw [show benching.post .idle (.db (.runGet run.id)) (.ok (some ⟨run, rfl⟩)) =
          .publishing run.id from if_pos (not_not.1 hrun)]
        exact publish_benching cfg run jsonl
  refine Prog.follows_bind.2 (hservice.mono fun γ e h => ?_)
  cases e with
  | error => exact h
  | ok =>
    have hcreate : (createTask (.releaseNode r)).Calls (S := sig) Neither := calls_emit trivial
    exact neither_follows hcreate fun _ => h

theorem body_benching (cfg : Config) (n : TaskName) :
    (n.body cfg).Follows benching (fun γ _ => γ.Settled) n.bench := by
  by_cases hn : n.benches = true
  · rw [TaskName.bench, if_pos hn]
    cases n with
    | releaseNode r =>
      refine neither_follows ((releaseNode_calls r).mono fun op h => ?_) fun _ => trivial
      cases op with
      | db q => cases q <;> first | exact trivial | exact h.elim
      | s3 => exact h.elim
      | _ => trivial
    | request req =>
      cases req with
      | complete r jsonl => exact complete_benching cfg r jsonl
      | submit force modelFilter =>
        cases force with
        | true => cases hn
        | false =>
          refine Prog.follows_bind.2 ((submit_follows cfg modelFilter).mono fun γ e h => ?_)
          cases e with
          | error => exact h
          | ok => exact (show γ = .idle from h) ▸ trivial
      | _ => cases hn
    | _ => cases hn
  · rw [TaskName.bench, if_neg hn]
    exact (Prog.Calls.maintains (I := (· = Bench.other)) (body_calls cfg n) fun γ op hγ _ => by
      subst hγ
      exact ⟨trivial, fun _ => rfl⟩).follows rfl fun _ _ h => h ▸ trivial

def benches (cfg : Config) : Watch (orchestrator cfg) Bench where
  protocol := benching
  start := TaskName.bench
  ends γ _ := γ.Settled
  follows := body_benching cfg

/-! ## The runs of a pair while `submit` creates one -/

/-- The call is one of the bucket, and fails. -/
def Op.s3Fails (op : Op) (e : Env) : Prop :=
  match op with
  | .s3 _ => e.fault ≠ .none
  | _ => False

instance Op.decidableS3Fails (e : Env) : (op : Op) → Decidable (op.s3Fails e)
  | .s3 _ => inferInstanceAs (Decidable (_ ≠ _))
  | .db _ | .tf _ | .workspaceExists _ | .modelInfo _ | .enter .. | .leave .. | .now | .uuid4
  | .sleep _ | .getQuota _ | .fetchGpuQuota | .updateQuota _ | .createTask _ => isFalse id

def TaskName.submits : TaskName → Bool
  | .request (.submit ..) => true
  | _ => false

/-- No call to the bucket fails, and a submit arrives when the others have ended. -/
def OneSubmit (p : System cfg) : Step cfg → Prop
  | .arrive n => TaskName.submits n = true →
      ∀ t ∈ p.tasks, TaskName.submits t.name = true → t.prog.Ended
  | l => ∀ c ∈ p.calls l, ¬ c.1.s3Fails c.2

/-- Every done run's pair has its `latest.meta.json`. -/
def Marked (w : World) : Prop :=
  ∀ x ∈ w.db.runs.rows, x.status = .done → (w.s3 (latestMetaKey x.model x.engine)).isSome = true

instance OneSubmit.decidable (p : System cfg) : (l : Step cfg) → Decidable (OneSubmit p l)
  | .arrive n =>
    have : ∀ t : Task (orchestrator cfg),
        Decidable (TaskName.submits t.name = true → t.prog.Ended) := fun _ => inferInstance
    inferInstanceAs (Decidable (TaskName.submits n = true → ∀ t ∈ p.tasks, _))
  | .run i e => inferInstanceAs (Decidable (∀ c ∈ p.calls (.run i e), _))
  | .crash e => inferInstanceAs (Decidable (∀ c ∈ p.calls (.crash e), _))

/-- A completion commits, and learns of it, while no submit stands between its look for the object
of the run's pair and its look for an active run; a submit looks for the object while no completion
stands between its commit and the upload of it. -/
def Op.inTurn (p : System cfg) (g : Nat → Bench) (e : Env) : Op → Prop
  | .db (.completeRun r ..) => e.fault = .before ∨ (e.fault = .none ∧
      ∀ run ∈ p.world.db.runs.get r, ∀ j < p.tasks.length, ¬ p.Ended j →
        g j ≠ .headed (latestMetaKey run.model run.engine))
  | .s3 (.headObject key) => ∀ j < p.tasks.length, ¬ p.Ended j → g j ≠ .marking key
  | _ => True

instance Op.decidableInTurn (p : System cfg) (g : Nat → Bench) (e : Env) :
    (op : Op) → Decidable (op.inTurn p g e)
  | .db (.completeRun r ..) =>
    inferInstanceAs (Decidable (_ ∨ (_ ∧ ∀ run ∈ p.world.db.runs.get r, ∀ j < p.tasks.length,
      ¬ p.Ended j → g j ≠ .headed (latestMetaKey run.model run.engine))))
  | .s3 (.headObject _) => inferInstanceAs (Decidable (∀ j < p.tasks.length, _))
  | .s3 (.putObject ..) | .s3 (.copyObject ..) | .s3 (.getObject _) | .tf _ | .workspaceExists _
  | .modelInfo _ | .enter .. | .leave .. | .now | .uuid4 | .sleep _ | .getQuota _ | .fetchGpuQuota
  | .updateQuota _ | .createTask _ => isTrue trivial
  | .db (.runGet _) | .db (.claimQueued ..) | .db .countLiveByType | .db (.hasActiveRun ..)
  | .db (.runCreate _) | .db (.failRun ..) | .db (.setRunning ..) | .db (.setLogsUrl ..)
  | .db (.setPhase ..) | .db (.claimRunningTimedOut _) | .db .getOrphanedProvisioning
  | .db (.claimProvisioningTimedOut _) | .db (.requeueForRetry ..) | .db (.setFailed ..)
  | .db (.nodeGet _) | .db (.nodeCreate _) | .db (.nodeSave _) | .db (.createProvisioning ..)
  | .db (.setBusy ..) | .db .getLeaked | .db (.setDownByRun _) => isTrue trivial

/-- What the claim assumes of an execution, and that its submits and completions take turns. -/
def InTurn (p : System cfg) (g : Nat → Bench) (l : Step cfg) : Prop :=
  Benching p l ∧ OneSubmit p l ∧ match l with
    | .run i e => ∀ c ∈ p.calls (.run i e), c.1.inTurn p g c.2
    | _ => True

instance InTurn.decidable (p : System cfg) (g : Nat → Bench) : (l : Step cfg) →
    Decidable (InTurn p g l)
  | .run i e => inferInstanceAs (Decidable (_ ∧ _ ∧ ∀ c ∈ p.calls (.run i e), _))
  | .arrive _ | .crash _ => inferInstanceAs (Decidable (_ ∧ _ ∧ True))

/-- The pair has no run that is running or done. -/
def Unbegun (db : Db) (k : String × Engine) : Prop :=
  ∀ x ∈ db.runs.rows, x.pair = k → x.status ≠ .running ∧ x.status ≠ .done

/-- What a task knows at each stage. -/
def Bench.Knows (db : Db) : Bench → Prop
  | .headed key => ∀ x ∈ db.runs.rows, latestMetaKey x.model x.engine = key → x.status ≠ .done
  | .cleared k => Unbegun db k
  | .publishing r => ∃ x, db.runs.get r = some x ∧ (x.status = .running ∨ x.status = .done)
  | _ => True

/-- A done run has its `latest.meta.json`, or the completion is about to write it; and what the
tasks know is so. -/
structure Unrepeated (p : System cfg) (g : Nat → Bench) : Prop where
  marked : ∀ x ∈ p.world.db.runs.rows, x.status = .done →
    (p.world.s3 (latestMetaKey x.model x.engine)).isSome ∨
    ∃ j < p.tasks.length, g j = .marking (latestMetaKey x.model x.engine)
  known : ∀ i < p.tasks.length, ¬ p.Ended i → (g i).Knows p.world.db
  named : ∀ i t, p.tasks[i]? = some t → TaskName.benches t.name = true → g i ≠ .other

theorem Bench.rowStep {γ : Bench} {q : Query} {pick : List RunId} {now : Time} {db db' : Db}
    {a : q.Resp} (hγ : γ ≠ .other) (hq : γ.allows (.db q))
    (h : q.tx pick now db = .ok (a, db')) (r : RunId) : db'.runs.get r = db.runs.get r ∨
      (γ = .publishing r ∧ (∃ url result, q = .completeRun r url result) ∧ ∃ x y,
        db.runs.get r = some x ∧ db'.runs.get r = some y ∧ y.status = .done ∧ y.pair = x.pair) ∨
      ∃ run, db.runs.get r = none ∧ db'.runs.get r = some run ∧ run.status = .queued := by
  rcases q.rowStep h r with he | ⟨x, y, hx, hy, hw⟩ | ⟨run, rfl, -, hn, hy⟩
  · exact .inl he
  · obtain rfl := Table.key_of_get hx
    right; left
    cases hw with
    | complete =>
      refine ⟨?_, ⟨_, _, rfl⟩, x, _, hx, hy, rfl, rfl⟩
      cases γ <;> first | exact absurd rfl hγ | exact hq
    | _ => cases γ <;> first | exact absurd rfl hγ | exact hq.elim
  · refine .inr (.inr ⟨run, hn, hy, ?_⟩)
    cases γ <;> first | exact absurd rfl hγ | exact hq.2

section
variable {p : System cfg} {g : Nat → Bench} {i : Nat} {n : (orchestrator cfg).Name} {op : sig.Op}
  {next : sig.Resp op → Prog sig Exc Unit} {e : Env} {γ : Bench}

theorem key_of_pair {x y : Run} (h : y.pair = x.pair) :
    latestMetaKey y.model y.engine = latestMetaKey x.model x.engine := by
  obtain ⟨hm, he⟩ := Prod.mk.inj h
  rw [show y.model = x.model from hm, show y.engine = x.engine from he]

theorem knows_after (hJ : Unrepeated p g) (ht : p.tasks[i]? = some ⟨n, .call op next⟩)
    (hγ : g i ≠ .other) (ha : (g i).allows op) (hk : γ.Knows p.world.db)
    (hc : ∀ r url result, (op : Op) = .db (.completeRun r url result) → e.fault ≠ .before →
      ∀ run ∈ p.world.db.runs.get r, γ ≠ .headed (latestMetaKey run.model run.engine)) :
    γ.Knows (p.after i n op next e).world.db := by
  rcases System.after_db p i e n op next with he | ⟨q, a, rfl, hf, h⟩
  · rwa [he]
  have hrow := Bench.rowStep hγ ha h
  cases γ with
  | headed =>
    intro y hy hkey
    have hy' := Table.get_eq_some.2 ⟨hy, rfl⟩
    rcases hrow y.id with he | ⟨-, ⟨url, result, rfl⟩, x, z, hx, hz, -, hxp⟩ | ⟨run, -, hz, hq⟩
    · exact hk y (Table.get_eq_some.1 (he.symm.trans hy')).1 hkey
    · cases hz.symm.trans hy'
      exact absurd (by rw [← key_of_pair hxp, hkey]) (hc _ _ _ rfl hf x hx)
    · cases hz.symm.trans hy'
      simp [hq]
  | cleared k =>
    intro y hy hp
    have hy' := Table.get_eq_some.2 ⟨hy, rfl⟩
    rcases hrow y.id with he | ⟨hpub, -, x, z, hx, hz, -, hxp⟩ | ⟨run, -, hz, hq⟩
    · exact hk y (Table.get_eq_some.1 (he.symm.trans hy')).1 hp
    · -- a completed run was not of this pair
      cases hz.symm.trans hy'
      have hknown := hJ.known i (Pool.lt_of_getElem? ht) (Pool.not_ended ht id)
      rw [hpub] at hknown
      obtain ⟨x', hx', hs⟩ := hknown
      cases hx'.symm.trans hx
      have hn := hk x (Table.get_eq_some.1 hx).1 (hxp.symm.trans hp)
      exact (hs.elim hn.1 hn.2).elim
    · cases hz.symm.trans hy'
      simp [hq]
  | publishing r =>
    obtain ⟨x, hx, hs⟩ := hk
    rcases hrow r with he | ⟨-, -, -, y, -, hy, hd, -⟩ | ⟨_, hn, -⟩
    · exact ⟨x, he.trans hx, hs⟩
    · exact ⟨y, hy, .inr hd⟩
    · cases hn.symm.trans hx
  | _ => trivial

theorem get_answer {r : RunId} {db db' : Db} {run : RunOf r}
    (h : RunRepository.get r db = .ok (some run, db')) : db.runs.get r = some run.1 := by
  cases hg : db.runs.get r with
  | none => rw [get_of_none hg] at h; cases h
  | some x => rw [get_of_get hg] at h; cases h; rfl

theorem hasActiveRun_false {m : String} {e : Engine} {db db' : Db}
    (h : hasActiveRun m e db = .ok (false, db')) :
    ∀ x ∈ db.runs.rows, x.pair = (m, e) → x.active = false := by
  obtain ⟨hany, -⟩ := Prod.mk.inj (Except.ok.inj h)
  intro x hx hp
  cases hp
  simpa [Run.active] using List.any_eq_false.1 hany x hx

/-- What an answer can do to a stage. -/
inductive Bench.Learns (γ : Bench) : (op : Op) → op.Resp → Bench → Prop
  | same {op : Op} {a : op.Resp} : γ.Learns op a γ
  | idle {op : Op} {a : op.Resp} : γ.Learns op a .idle
  | headed {key : S3Key} : γ.Learns (.s3 (.headObject key)) (.ok false) (.headed key)
  | cleared {m : String} {e : Engine} :
      γ.Learns (.db (.hasActiveRun m e)) (.ok false) (.cleared (m, e))
  | publishing {r : RunId} {run : RunOf r} (h : run.1.status = .running) :
      γ.Learns (.db (.runGet r)) (.ok (some run)) (.publishing r)
  | marking {r : RunId} {url : String} {result : Result} {run : RunOf r} :
      γ.Learns (.db (.completeRun r url result)) (.ok run)
        (.marking (latestMetaKey run.1.model run.1.engine))

theorem Bench.learns_after (γ : Bench) (op : Op) (a : op.Resp) : γ.Learns op a (γ.after op a) := by
  unfold Bench.after
  split
  · exact .same
  · exact .headed
  · exact .cleared
  · split
    · next h => exact .publishing h
    · exact .same
  · exact .marking
  · exact .idle
  · exact .idle
  · exact .idle
  · exact .same

theorem learned (hJ : Unrepeated p g) (htr : Pool.TrackedTo benching (fun γ _ => γ.Settled) p g)
    (ht : p.tasks[i]? = some ⟨n, .call op next⟩) (ha : (g i).allows op) (hc : InTurn p g (.run i e))
    (h : (g i).Learns op ((orchestrator cfg).handle i n op e p.world).1 γ) :
    γ.Knows p.world.db := by
  have hturn := hc.2.2 _ (System.calls_run ht)
  have hown := hJ.known i (Pool.lt_of_getElem? ht) (Pool.not_ended ht id)
  generalize ha' : ((orchestrator cfg).handle i n op e p.world).1 = a at h
  cases h with
  | same => exact hown
  | idle | marking => trivial
  | @headed key =>
    -- no completion is about to write the object, so no run has been done without it
    replace ha' : (e.guard p.world.s3 (.ok (p.world.s3 key).isSome, p.world.s3)).1 = .ok false :=
      ha'
    rw [Env.guard_ok ha'] at ha'
    intro x hx hkey hdone
    subst hkey
    rcases hJ.marked x hx hdone with hs | ⟨j, hj, hmark⟩
    · rw [hs] at ha'
      cases ha'
    · refine hturn j hj (fun hend => ?_) hmark
      obtain ⟨-, hsettled⟩ := htr.ended hend
      rw [hmark] at hsettled
      exact hsettled
  | @cleared m engine =>
    replace ha' : (Query.run (.hasActiveRun m engine) e (p.world.clock + e.elapsed) p.world.db).1 =
      .ok false := ha'
    have hnone := hasActiveRun_false (Query.run_ok ha')
    have hheaded : g i = .headed (latestMetaKey m engine) ∨ g i = .other := by
      cases hg : g i with
      | other => exact .inr rfl
      | _ => rw [hg] at ha; exact .inl ha
    have hγ := hJ.named i _ ht (hc.1 _ ht)
    rw [hheaded.resolve_right hγ] at hown
    intro x hx hp
    obtain ⟨rfl, rfl⟩ := Prod.mk.inj hp
    refine ⟨fun hrun => ?_, hown x hx rfl⟩
    have hx' := hnone x hx rfl
    simp [Run.active, hrun, activeRunStatuses] at hx'
  | @publishing _ run hrun =>
    replace ha' : (Query.run (.runGet _) e (p.world.clock + e.elapsed) p.world.db).1 =
      .ok (some run) := ha'
    exact ⟨run.1, get_answer (Query.run_ok ha'), .inl hrun⟩

theorem Bench.after_ne_other {op : Op} {a : op.Resp} (h : γ ≠ .other) : γ.after op a ≠ .other := by
  intro hafter
  have hlearns := γ.learns_after op a
  rw [hafter] at hlearns
  cases hlearns
  exact h rfl

theorem named_after (hJ : Unrepeated p g) (ht : p.tasks[i]? = some ⟨n, .call op next⟩)
    (hγ : g i ≠ .other) {j : Nat} {t : Task (orchestrator cfg)}
    (hj : (p.after i n op next e).tasks[j]? = some t) (hname : TaskName.benches t.name = true) :
    Pool.ghost benching TaskName.bench g i op ((orchestrator cfg).handle i n op e p.world).1
      p.tasks.length ((orchestrator cfg).handle i n op e p.world).2.2 j ≠ .other := by
  rcases Pool.getElem?_after hj with ⟨rfl, -⟩ | ⟨hne, hj⟩ | ⟨rfl, m, hm, rfl⟩
  · rw [Pool.ghost_self]
    exact Bench.after_ne_other hγ
  · rw [Pool.ghost_other hne (Nat.ne_of_lt (Pool.lt_of_getElem? hj))]
    exact hJ.named j t hj hname
  · rw [hm, Pool.ghost_new (Pool.lt_of_getElem? ht)]
    rw [show TaskName.bench m = .idle from if_pos hname]
    exact nofun

theorem TaskName.bench_knows (m : TaskName) (db : Db) : m.bench.Knows db := by
  unfold TaskName.bench
  split <;> trivial

theorem marking_after {key : S3Key} (hg : g i = .marking key)
    (ht : p.tasks[i]? = some ⟨n, .call op next⟩) (ha : (g i).allows op)
    (hc : OneSubmit p (.run i e)) :
    (g i).after op ((orchestrator cfg).handle i n op e p.world).1 = .marking key ∨
      ((p.after i n op next e).world.s3 key).isSome := by
  have hok := hc _ (System.calls_run ht)
  rw [hg] at ha ⊢
  cases op with
  | db q => cases q <;> first | exact .inl rfl | exact nomatch ha.1 | cases ha
  | s3 q =>
    cases q with
    | putObject k body =>
      cases body with
      | completedRun doc =>
        obtain rfl : key = k := Bench.marking.inj ha
        right
        have hfault : e.fault = .none := not_not.1 hok
        show ((e.guard p.world.s3 (.ok (), Function.update p.world.s3 key _)).2 key).isSome
        rw [Env.guard, hfault]
        exact (congrArg _ (Function.update_self ..)).trans rfl
      | _ => exact .inl rfl
    | headObject => cases ha
    | _ => exact .inl rfl
  | _ => exact .inl rfl

theorem Bench.after_completeRun_ne {r : RunId} {url : String} {result : Result}
    {a : Op.Resp (.db (.completeRun r url result))} {key : S3Key} (ha : γ.allows (.db (.completeRun
    r url result))) : γ.after (.db (.completeRun r url result)) a ≠ .headed key := by
  cases γ with
  | other | publishing => cases a <;> exact nofun
  | _ => cases ha

theorem marked_after {key : S3Key} (ht : p.tasks[i]? = some ⟨n, .call op next⟩)
    (ha : (g i).allows op) (hc : OneSubmit p (.run i e))
    (h : (p.world.s3 key).isSome ∨ ∃ j < p.tasks.length, g j = .marking key) :
    ((p.after i n op next e).world.s3 key).isSome ∨
      ∃ j < (p.after i n op next e).tasks.length, Pool.ghost benching TaskName.bench g i op
        ((orchestrator cfg).handle i n op e p.world).1 p.tasks.length
        ((orchestrator cfg).handle i n op e p.world).2.2 j = .marking key := by
  rcases h with hs | ⟨j, hj, hmark⟩
  · exact .inl (isSome_after hs)
  have hlt := hj.trans_le (Pool.length_le_after p i n op next e)
  by_cases hne : j = i
  · subst hne
    refine (marking_after hmark ht ha hc).symm.imp_right fun h => ⟨j, hlt, ?_⟩
    rw [Pool.ghost_self]
    exact h
  · exact .inr ⟨j, hlt, by rw [Pool.ghost_other hne (Nat.ne_of_lt hj)]; exact hmark⟩

theorem Unrepeated.after (hJ : Unrepeated p g)
    (htr : Pool.TrackedTo benching (fun γ _ => γ.Settled) p g)
    (ht : p.tasks[i]? = some ⟨n, .call op next⟩) (ha : (g i).allows op)
    (hc : InTurn p g (.run i e)) :
    Unrepeated (p.after i n op next e) (Pool.ghost benching TaskName.bench g i op
      ((orchestrator cfg).handle i n op e p.world).1 p.tasks.length
      ((orchestrator cfg).handle i n op e p.world).2.2) := by
  have hi := Pool.lt_of_getElem? ht
  have hγ := hJ.named i _ ht (hc.1 _ ht)
  have hturn := hc.2.2 _ (System.calls_run ht)
  refine ⟨fun y hy hdone => ?_, fun j hj hend => ?_, fun j t hj => named_after hJ ht hγ hj⟩
  · -- a run that is done was so before, or this call has committed it
    have hy' := Table.get_eq_some.2 ⟨hy, rfl⟩
    rcases System.after_db p i e n op next with he | ⟨q, a, rfl, hf, htx⟩
    · exact marked_after ht ha hc.2.1 (hJ.marked y (he ▸ hy) hdone)
    rcases Bench.rowStep hγ ha htx y.id with he | ⟨-, ⟨url, result, rfl⟩, -⟩ | ⟨run, -, hz, hq⟩
    · exact marked_after ht ha hc.2.1
        (hJ.marked y (Table.get_eq_some.1 (he.symm.trans hy')).1 hdone)
    · obtain ⟨⟨run, -, hrun, hdb⟩, -⟩ := completeRun_ok htx
      have hya : y = a.1 := (Option.some.inj (hdb.symm.trans hy')).symm.trans hrun.symm
      refine .inr ⟨i, hi.trans_le (Pool.length_le_after p i n _ next e), ?_⟩
      rw [Pool.ghost_self]
      show (g i).after (.db (.completeRun y.id url result)) (Query.run (.completeRun y.id url result)
        e (p.world.clock + e.elapsed) p.world.db).1 = _
      rw [Query.run_answers (hturn.resolve_left hf).1 htx]
      cases hg : g i with
      | other => exact absurd hg hγ
      | _ => exact congrArg (fun x : Run => Bench.marking (latestMetaKey x.model x.engine)) hya.symm
    · cases hz.symm.trans hy'
      cases hq.symm.trans hdone
  · have hnew : ∀ r url result, (op : Op) = .db (.completeRun r url result) →
        e.fault ≠ .before → ∀ run ∈ p.world.db.runs.get r, ∀ k < p.tasks.length, ¬ p.Ended k →
          g k ≠ .headed (latestMetaKey run.model run.engine) := by
      rintro r url result rfl hf
      exact (hturn.resolve_left hf).2
    rcases Pool.ghost_cases benching TaskName.bench g hi hj with
      ⟨rfl, hg⟩ | ⟨hne, hlt, hg⟩ | ⟨-, m, -, hg⟩
    · rw [hg]
      have hlearns := (g j).learns_after op ((orchestrator cfg).handle j n op e p.world).1
      refine knows_after hJ ht hγ ha (learned hJ htr ht ha hc hlearns) ?_
      rintro r url result rfl hf run - hheaded
      exact Bench.after_completeRun_ne ha hheaded
    · rw [hg]
      have hlive : ¬ p.Ended j := fun h => hend (h.after ht)
      exact knows_after hJ ht hγ ha (hJ.known j hlt hlive) fun r url result hop hf run hrun =>
        hnew r url result hop hf run hrun j hlt hlive
    · rw [hg]
      exact m.bench_knows _

end

theorem unrepeated_of_reach {p : System cfg} {g : Nat → Bench} (h₀ : Marked w)
    (h : Pool.ReachWith (benches cfg) InTurn (System.start cfg w) (benches cfg).boot p g) :
    Unrepeated p g := by
  refine h.invariant (J := Unrepeated) (Pool.TrackedTo.boot _ (benches cfg).follows) ?_
    (fun p g i e n op next htr hJ hi ha hc => hJ.after htr hi ha hc) (fun p g n hJ _ hc => ?_)
    fun _ _ _ _ hc => hc.1.elim
  · refine ⟨fun x hx hdone => .inl (h₀ x hx hdone), fun _ _ _ => trivial, fun i t ht hname => ?_⟩
    obtain ⟨-, rfl⟩ := Pool.getElem?_boot ht
    cases hname
  · have hstart : (benches cfg).start n = .idle := if_pos hc.1
    refine ⟨fun x hx hdone => (hJ.marked x hx hdone).imp_right ?_, fun j hj hend => ?_,
      fun j t hj hname => ?_⟩
    · rintro ⟨j, hj, hmark⟩
      refine ⟨j, by rw [List.length_append]; omega, ?_⟩
      rwa [Function.update_of_ne (Nat.ne_of_lt hj)]
    · rcases Pool.update_cases hj with ⟨hlt, hg⟩ | ⟨-, hg⟩
      · rw [hg]
        exact hJ.known j hlt fun ⟨t, ht, he⟩ => hend ⟨t, (List.getElem?_append_left hlt).trans ht, he⟩
      · rw [hg, hstart]
        trivial
    · rcases Pool.getElem?_arrive hj with hj | ⟨rfl, rfl⟩
      · rw [Function.update_of_ne (Nat.ne_of_lt (Pool.lt_of_getElem? hj))]
        exact hJ.named j t hj hname
      · rw [Function.update_self, hstart]
        exact nofun

/-- When submits and completions take turns, no run is created for a pair that has a run done. -/
theorem unrepeated_of_inTurn {p : System cfg} {g : Nat → Bench} (h₀ : Marked w)
    (h : Pool.ReachWith (benches cfg) InTurn (System.start cfg w) (benches cfg).boot p g)
    {l : Step cfg} (hl : Benching p l) : System.Meets (fun db c => c.fresh db) p l := by
  have hJ := unrepeated_of_reach h₀ h
  have htr := h.tracked (Pool.TrackedTo.boot _ (benches cfg).follows)
  rintro ⟨c, e⟩ hc
  right
  cases c with
  | runCreate run =>
    obtain ⟨i, n, next, rfl, ht⟩ := System.call_of_queries hc
    have hγ := hJ.named i _ ht (hl _ ht)
    have ha : (g i).allows (.db (.runCreate run)) := (htr i _ ht).1
    have hk : g i = .cleared run.pair := by
      cases hg : g i with
      | other => exact absurd hg hγ
      | _ => rw [hg] at ha; exact ha.1
    have hknown := hJ.known i (Pool.lt_of_getElem? ht) (Pool.not_ended ht id)
    rw [hk] at hknown
    exact fun x hx hp => (hknown x hx hp).2
  | _ => trivial

namespace Sample

/-- A deployment with two entries in `models.yaml`. -/
def bothModels : Config :=
  { config with loadModels := .ok [{ model := "n", engine := .vllm, sizeB := 8 },
      { model := "m", engine := .vllm, sizeB := 8 }] }

/-- The process finds run `r` of the model running. -/
def inFlight (cfg : Config) (r : RunId) (model : String) : System cfg :=
  System.start cfg { world with db := { Db.empty with
    runs := Db.empty.runs.add { run with id := r, model } (by simp [Db.empty, Table.empty]) } }

/-- A submit (task 1) finds no meta; the completion of run `r` (task 2) commits; the submit finds
no active run and is about to create one. -/
def outrun (r : RunId) : List (Step bench) :=
  .arrive submit :: List.replicate 4 (.run 1 {}) ++
    .arrive (.request (.complete r "")) :: List.replicate 4 (.run 2 {}) ++
    List.replicate 2 (.run 1 {}) ++ [.run 1 { uuid := 8 }, .run 1 {}]

/-- Run 9 of n is completed (task 2) up to its meta while a submit (task 1) writes the catalogs;
the submit finds the meta of n and neither meta nor active run of m, and is about to create a run
for m. -/
def inTurn : List (Step bothModels) :=
  .arrive submit :: List.replicate 3 (.run 1 {}) ++
    .arrive (.request (.complete 9 "")) :: List.replicate 5 (.run 2 {}) ++
    List.replicate 2 (.run 1 {}) ++ List.replicate 2 (.run 2 {}) ++
    List.replicate 2 (.run 1 {}) ++ [.run 1 { uuid := 8 }, .run 1 {}]

end Sample

open Sample in
theorem unrepeated_of_bothModels :
    let p := (inFlight bothModels 9 "n").play inTurn
    p.world.db.status 9 = some .done ∧
      (p.play [.run 1 {}]).world.db.status 8 = some .queued ∧
      System.Meets (fun db c => c.fresh db) p (.run 1 {}) := by
  have hp : (inFlight bothModels 9 "n").exec inTurn =
      some ((inFlight bothModels 9 "n").play inTurn) := Pool.exec_play _ _ (by decide +kernel)
  have hobeys : (inFlight bothModels 9 "n").ObeysWith (benches bothModels) InTurn
      (benches bothModels).boot inTurn := by decide +kernel
  obtain ⟨g, hg⟩ := hobeys.reachWith hp
  have hmarked : Marked (inFlight bothModels 9 "n").world := by
    unfold Marked
    decide
  exact ⟨by decide +kernel, by decide +kernel,
    unrepeated_of_inTurn (w := (inFlight bothModels 9 "n").world) hmarked hg (by decide +kernel)⟩

/-- The completion commits between the two looks of the submit. -/
theorem benchmark_repeated : ¬ ∀ (w : World) (p : System Sample.bench) (l : Step Sample.bench),
    Marked w → Pool.Reach (fun p l => Benching p l ∧ OneSubmit p l)
    (System.start Sample.bench w) p →
      Benching p l → OneSubmit p l → System.Meets (fun db c => c.fresh db) p l := by
  intro h
  have hannounced : Marked (Sample.inFlight Sample.bench 7 "m").world := by
    unfold Marked
    decide
  have h := h (Sample.inFlight Sample.bench 7 "m").world _ (.run 1 {}) hannounced
    (Pool.reach_play_of_obeys (Sample.inFlight Sample.bench 7 "m") (Sample.outrun 7) (by decide)
      (Pool.Obeys.and (by decide) (by decide))) (by decide) (by decide)
  exact absurd h (by decide)

end GrillPlatform
