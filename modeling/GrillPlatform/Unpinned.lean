import GrillPlatform.Provisioning
import GrillPlatform.RunRows

/-! The run at the end of `handle_queued_run`, when at most one of the task's repository calls has
raised. -/

namespace GrillPlatform
open Coroutine RunRepository
variable {cfg : Config} {r : RunId}

/-- The call raises here, by itself or as the environment has it. -/
def Query.raises (c : Query) (e : Env) (w : World) : Bool :=
  match (c.run e (w.clock + e.elapsed) w.db).1 with
  | .error _ => true
  | .ok _ => false

/-- The repository call of task `i` that this step makes and that raises. -/
def raising (i : Nat) (p : System cfg) (l : Step cfg) (_ : System cfg) : Option Query :=
  match l with
  | .run j _ =>
    if j = i then (p.queries l).bind fun c => if c.1.raises c.2 p.world then some c.1 else none
    else none
  | _ => none

/-- The process does not stop, and no other task than `i` changes the status of the run. -/
def OffRun (i : Nat) (r : RunId) (p : System cfg) (l : Step cfg) : Prop :=
  match l with
  | .crash _ => False
  | .run j _ => j = i ∨ ∀ q ∈ p.step l, q.world.db.status r = p.world.db.status r
  | .arrive _ => True

/-- Whether the task has found no run, has still to settle it, or has settled it. -/
inductive Verdict where
  | absent | pending | settled
  deriving DecidableEq

def Verdict.after : Verdict → (op : Op) → op.Resp → Verdict
  | _, .db (.runGet _), .ok none => .absent
  | _, .db (.requeueForRetry ..), .ok (some _) => .settled
  | _, .db (.setRunning ..), .ok _ => .settled
  | _, .db (.setFailed ..), .ok _ => .settled
  | v, _, _ => v

/-- One if the answer is the exception of a repository call. -/
def Op.raised : (op : Op) → op.Resp → Nat
  | .db _, .error _ => 1
  | _, _ => 0

/-- What the task has done so far: the verdict, and how many repository calls have raised. -/
structure Handling where
  verdict : Verdict
  raised : Nat

def Handling.allows (r : RunId) : Op → Prop
  | .db (.createProvisioning r' _) | .db (.runGet r') | .db (.requeueForRetry r' _)
  | .db (.setRunning r' _) | .db (.setDownByRun r') | .db (.setFailed r' _ _)
  | .db (.setBusy r' _ _) => r' = r
  | .tf _ | .workspaceExists _ | .enter .. | .leave .. | .now => True
  | _ => False

def handling (r : RunId) : Protocol sig Handling where
  pre _ := Handling.allows r
  post γ op a := ⟨γ.verdict.after op a, γ.raised + Op.raised op a⟩

/-- The end of the task: with at most one call that has raised, the run is settled. -/
def Handling.done (γ : Handling) (out : Except Exc Unit) : Prop :=
  γ.raised ≤ 1 → out = .ok () ∧ γ.verdict ≠ .pending

/-- The end of the part under the guard: nothing has raised, or the guard is still to come. -/
def Handling.guarded (γ : Handling) : Except Exc Unit → Prop
  | .ok _ => γ.raised = 0 ∧ γ.verdict ≠ .pending
  | .error _ => γ.raised = 1

theorem maintains_handling {α : Type} {γ : Handling} {p : Async α} (hp : p.Calls (S := sig) Works) :
    p.Maintains (handling r) fun γ' => γ' = γ :=
  hp.maintains fun γ' op hγ hop => by
    subst hγ
    unfold Works at hop
    split at hop
    · exact ⟨trivial, fun _ => rfl⟩
    · exact ⟨trivial, fun _ => rfl⟩
    · exact ⟨trivial, fun _ => rfl⟩
    · exact ⟨trivial, fun _ => rfl⟩
    · exact hop.elim

theorem setFailed_follows {Q : Handling → Except Exc Unit → Prop} {γ : Handling} {reason : String}
    (hok : Q ⟨.settled, γ.raised⟩ (.ok ())) (hraise : ∀ x, Q ⟨γ.verdict, γ.raised + 1⟩ (.error x)) :
    (setFailed r reason).Follows (handling r) Q γ :=
  ⟨trivial, fun _ => follows_query_bind rfl (fun _ => hok) hraise⟩

theorem fail_follows {Q : Handling → Except Exc Unit → Prop} {γ : Handling} {reason : String}
    (hok : Q ⟨.settled, γ.raised⟩ (.ok ())) (hraise : ∀ x, Q ⟨γ.verdict, γ.raised + 1⟩ (.error x)) :
    (fail r reason).Follows (handling r) Q γ :=
  follows_query_bind rfl (fun _ => setFailed_follows hok hraise) hraise

theorem safeDestroy_follows (γ : Handling) :
    (safeDestroy r).Follows (handling r) (fun γ' out => out = .ok () ∧ γ' = γ) γ := by
  have hdestroy : (destroyNode r).Maintains (handling r) fun γ' => γ' = γ :=
    maintains_handling (destroyNode_calls r trivial trivial works_of_destroyOp)
  refine Prog.follows_tryCatch.2 (hdestroy.follows rfl fun γ' out hγ => ?_)
  cases out with
  | ok _ => exact ⟨rfl, hγ⟩
  | error x => exact ⟨rfl, hγ⟩

theorem onProvisionError_follows (v : Verdict) (exc : Exc) :
    (onProvisionError cfg r exc).Follows (handling r) Handling.guarded ⟨v, 0⟩ := by
  have hfail : ∀ reason, (fail r reason).Follows (handling r) Handling.guarded ⟨v, 0⟩ :=
    fun reason => fail_follows ⟨rfl, nofun⟩ fun _ => rfl
  unfold onProvisionError
  split
  · refine Prog.follows_bind.2 ((safeDestroy_follows ⟨v, 0⟩).mono fun γ out hγ => ?_)
    obtain ⟨rfl, rfl⟩ := hγ
    refine follows_query_bind rfl (fun attempt => ?_) fun _ => rfl
    refine follows_query_bind rfl (fun _ => ?_) fun _ => rfl
    cases attempt with
    | none => exact setFailed_follows ⟨rfl, nofun⟩ fun _ => rfl
    | some n => exact ⟨rfl, nofun⟩
  · split <;> exact hfail _

theorem markRunning_follows (v : Verdict) (i : NodeId) (ip : String) :
    (markRunning r i ip).Follows (handling r) Handling.guarded ⟨v, 0⟩ := by
  refine follows_query_bind rfl (fun _ => ⟨trivial, fun now => ?_⟩) fun _ => rfl
  exact follows_query_bind rfl (fun _ => ⟨rfl, nofun⟩) fun _ => rfl

theorem provisionUnderPermit_follows (g : GpuType) :
    (provisionUnderPermit cfg r g).Follows (handling r) Handling.guarded ⟨.pending, 0⟩ := by
  refine follows_query_bind rfl (fun _ => ?_) fun _ => rfl
  refine follows_query_bind rfl (fun found => ?_) fun _ => rfl
  match found with
  | none =>
    refine ⟨rfl, fun a => (Prog.follows_ofExcept a).2 ?_⟩
    cases a with
    | ok _ => exact ⟨rfl, nofun⟩
    | error x => exact rfl
  | some ⟨run, hrun⟩ =>
    subst hrun
    have hprov : (provisionNode cfg run).Maintains (handling run.id) fun γ => γ = ⟨.pending, 0⟩ :=
      maintains_handling (provisionNode_calls cfg run trivial trivial works_of_provisionOp)
    refine Prog.follows_attempt_bind.2 (hprov.follows rfl fun γ out hγ => ?_)
    subst hγ
    cases out with
    | ok node => exact markRunning_follows .pending _ _
    | error exc => exact onProvisionError_follows .pending exc

theorem handleQueuedRun_handling (cfg : Config) (r : RunId) (g : GpuType) :
    (handleQueuedRun cfg r g).Follows (handling r) Handling.done ⟨.pending, 0⟩ := by
  refine Prog.follows_tryCatch.2 ((provisionUnderPermit_follows g).mono fun γ out hγ => ?_)
  cases out with
  | ok _ => exact fun _ => ⟨rfl, hγ.2⟩
  | error x =>
    refine fail_follows (fun _ => ⟨rfl, nofun⟩) fun x h => ?_
    have hraised : γ.raised = 1 := hγ
    simp only [hraised] at h
    omega

/-! ## What the calls do to the run -/

/-- The run is queued, running or failed. -/
def Unpinned (r : RunId) (db : Db) : Prop :=
  db.status r = some .queued ∨ db.status r = some .running ∨ db.status r = some .failed

def Verdict.holds (r : RunId) (db : Db) : Verdict → Prop
  | .absent => False
  | .pending => ∃ s, db.status r = some s
  | .settled => Unpinned r db

theorem Verdict.holds_congr {v : Verdict} {db db' : Db} (h : v.holds r db)
    (hs : db'.status r = db.status r) : v.holds r db' := by
  cases v with
  | absent => exact h
  | pending =>
    obtain ⟨s, hr⟩ := h
    exact ⟨s, hs.trans hr⟩
  | settled => rwa [Verdict.holds, Unpinned, hs]

theorem Verdict.holds_row {v : Verdict} {q : Query} {pick : List RunId} {now : Time} {db db' : Db}
    {a : q.Resp} (hq : Handling.allows r (.db q)) (ha : q.tx pick now db = .ok (a, db'))
    (h : v.holds r db) : v.holds r db' := by
  rcases q.rowStep ha r with he | ⟨x, y, hx, hy, hw⟩ | ⟨run, rfl, -⟩
  · exact Verdict.holds_congr h (by rw [Db.status, he, Db.status])
  · have hold := Db.status_of_get hx
    have hnew := Db.status_of_get hy
    cases v with
    | absent => exact h
    | pending => exact ⟨y.status, hnew⟩
    | settled =>
      rw [Verdict.holds, Unpinned, hold] at h
      rw [Verdict.holds, Unpinned, hnew]
      cases hw <;> simp_all [Handling.allows]
  · exact hq.elim

theorem unpinned_onRun {missing : String} {f : Run → Run} {hf} {db db' : Db} {a : RunOf r}
    (h : onRun r missing f hf db = .ok (a, db'))
    (hs : ∀ run, (f run).status = .running ∨ (f run).status = .failed) : Unpinned r db' := by
  obtain ⟨run, hg, -, rfl⟩ := onRun_ok h
  have hnew : (db.modifyRun r f hf).status r = some (f run).status := by
    rw [Db.status_modifyRun, if_pos rfl, hg]
    rfl
  rw [Unpinned, hnew]
  exact .inr ((hs run).imp (congrArg some) (congrArg some))

theorem queued_of_requeue {m : Int} {n : Nat} {db db' : Db}
    (h : requeueForRetry r m db = .ok (some n, db')) : db'.status r = some .queued := by
  unfold requeueForRetry at h
  split at h
  · cases h
  · rename_i a db₁ ho
    obtain ⟨run, hg, ha, rfl⟩ := onRun_ok ho
    obtain ⟨hn, rfl⟩ := Prod.mk.inj (Except.ok.inj h)
    have hnew : (db.modifyRun r (retried m) (id_retried m)).status r =
        some (retried m run).status := by
      rw [Db.status_modifyRun, if_pos rfl, hg]
      rfl
    have hleft : ¬ m ≤ ((retried m run).provisionAttempts : Int) := by
      rw [← ha]
      intro hm
      rw [if_pos hm] at hn
      cases hn
    rw [hnew]
    unfold retried at hleft ⊢
    dsimp only at hleft ⊢
    split at hleft
    · rename_i hm
      exact absurd hm hleft
    · rename_i hm
      rw [if_neg hm]

theorem Verdict.holds_answer {q : Query} {pick : List RunId} {now : Time} {db db' : Db} {a : q.Resp}
    {v : Verdict} (hq : Handling.allows r (.db q)) (ha : q.tx pick now db = .ok (a, db'))
    (h : v.holds r db) : (v.after (.db q) (.ok a)).holds r db' := by
  have hkept := Verdict.holds_row hq ha h
  cases q with
  | runGet r' =>
    obtain rfl : r' = r := hq
    cases a with
    | some run => exact hkept
    | none =>
      -- the run is there
      have hsome : ∃ run, db.runs.get r' = some run := by
        cases v with
        | absent => exact h.elim
        | pending =>
          obtain ⟨s, hs⟩ := h
          obtain ⟨run, hg, -⟩ := Db.get_of_status hs
          exact ⟨run, hg⟩
        | settled =>
          rcases h with h | h | h <;>
          · obtain ⟨run, hg, -⟩ := Db.get_of_status h
            exact ⟨run, hg⟩
      obtain ⟨run, hg⟩ := hsome
      cases (get_of_get hg).symm.trans ha
  | requeueForRetry r' m =>
    obtain rfl : r' = r := hq
    cases a with
    | none => exact hkept
    | some n => exact .inl (queued_of_requeue ha)
  | setRunning r' t =>
    obtain rfl : r' = r := hq
    exact unpinned_onRun ha fun _ => .inl rfl
  | setFailed r' t msg =>
    obtain rfl : r' = r := hq
    exact unpinned_onRun ha fun _ => .inr rfl
  | createProvisioning | setDownByRun | setBusy => exact hkept
  | _ => exact hq.elim

def InCourse (i : Nat) (r : RunId) (p : System cfg) (raised : List Query) : Prop :=
  ∃ t γ, p.tasks[i]? = some t ∧ t.prog.Follows (handling r) Handling.done γ ∧
    γ.raised = raised.length ∧ γ.verdict.holds r p.world.db

section
variable {i : Nat} {p q : System cfg} {raised : List Query}

theorem InCourse.step {l : Step cfg} (h : InCourse i r p raised) (hl : OffRun i r p l)
    (hs : p.step l = some q) : InCourse i r q (raised ++ (raising i p l q).toList) := by
  obtain ⟨t, γ, ht, hf, hlen, hγ⟩ := h
  rcases Pool.step_of_task hs ht with ⟨e, n, op, next, rfl, rfl, rfl⟩ | ⟨j, e, hj, rfl, hkept⟩ |
    ⟨n, rfl, hkept, hworld⟩ | ⟨e, rfl⟩
  -- the task's own call: a raise is counted, and the verdict goes by the answer
  · refine ⟨_, _, Pool.getElem?_after_self ht, hf.2 _, ?_, ?_⟩
    · rw [List.length_append, ← hlen]
      apply congrArg (γ.raised + ·)
      rw [raising, if_pos rfl, System.queries_run ht]
      cases op with
      | db c =>
        show Op.raised (.db c) (c.run e (p.world.clock + e.elapsed) p.world.db).1 =
          (if c.raises e p.world then some c else none).toList.length
        unfold Query.raises
        cases (c.run e (p.world.clock + e.elapsed) p.world.db).1 <;> rfl
      | _ => rfl
    · cases op with
      | db c =>
        show (γ.verdict.after (.db c) (c.run e (p.world.clock + e.elapsed) p.world.db).1).holds r
          (c.run e (p.world.clock + e.elapsed) p.world.db).2
        have hallows : Handling.allows r (.db c) := hf.1
        cases ha : (c.run e (p.world.clock + e.elapsed) p.world.db).1 with
        | ok a => exact Verdict.holds_answer hallows (Query.run_ok ha) hγ
        | error x =>
          have hverdict : γ.verdict.after (.db c) (.error x) = γ.verdict := by cases c <;> rfl
          rw [hverdict]
          rcases c.run_db e (p.world.clock + e.elapsed) p.world.db with he | ⟨a, htx⟩
          · rwa [he]
          · exact Verdict.holds_row hallows htx hγ
      | tf | workspaceExists | enter | leave | now => exact hγ
      | _ => exact hf.1.elim
  · have hnone : raising i p (.run j e) q = none := if_neg hj
    rw [hnone, Option.toList_none, List.append_nil]
    exact ⟨t, γ, hkept, hf, hlen, Verdict.holds_congr hγ (hl.resolve_left hj q hs)⟩
  · have hnone : raising i p (.arrive n) q = none := rfl
    rw [hnone, Option.toList_none, List.append_nil]
    exact ⟨t, γ, hkept, hf, hlen, Verdict.holds_congr hγ (by rw [hworld])⟩
  · exact hl.elim

end

/-- When `handle_queued_run` has ended, with nobody else at work on the run, and at most one of its
repository calls has raised, no exception has escaped and the run is queued, running or failed. -/
theorem handled_unpinned {p₀ p : System cfg} {ls : List (Step cfg)} {i : Nat} {g : GpuType}
    (h : p₀.exec ls = some p)
    (hstart : p₀.tasks[i]? =
      some (Coroutine.Task.spawn (M := orchestrator cfg) (.handleQueuedRun r g)))
    (hrun : p₀.world.db.status r = some .provisioning) (hoff : p₀.Obeys (OffRun i r) ls)
    (hend : p.Ended i) (hone : (p₀.trace (raising i) ls).length ≤ 1) :
    (∃ n, p.tasks[i]? = some ⟨n, .pure ()⟩) ∧ Unpinned r p.world.db := by
  have hcourse : InCourse i r p (p₀.trace (raising i) ls) :=
    Pool.trace_invariant (I := InCourse i r) h hoff
      ⟨_, ⟨.pending, 0⟩, hstart, handleQueuedRun_handling cfg r g, rfl, .provisioning, hrun⟩
      fun _ _ _ _ _ hI hl hs => hI.step hl hs
  obtain ⟨⟨n, prog⟩, γ, ht, hf, hlen, hγ⟩ := hcourse
  obtain ⟨t, ht', hended⟩ := hend
  cases ht.symm.trans ht'
  have hle : γ.raised ≤ 1 := hlen ▸ hone
  cases prog with
  | pure u =>
    refine ⟨⟨n, ht⟩, ?_⟩
    obtain ⟨-, hv⟩ := hf hle
    cases hverdict : γ.verdict with
    | absent => exact (hverdict ▸ hγ : Verdict.absent.holds r p.world.db).elim
    | pending => exact absurd hverdict hv
    | settled => exact (hverdict ▸ hγ : Verdict.settled.holds r p.world.db)
  | raise x => cases (hf hle).1
  | call => exact hended.elim

instance OffRun.decidable (i : Nat) (r : RunId) (p : System cfg) :
    (l : Step cfg) → Decidable (OffRun i r p l)
  | .crash _ => isFalse id
  | .run j e => inferInstanceAs (Decidable (j = i ∨ ∀ q ∈ p.step (.run j e), _))
  | .arrive _ => isTrue trivial

/-- `set_busy` raises, and the guard fails the run. -/
def Sample.busyRaises : List (Step config) :=
  steps 3 8 ++ .run 3 { output := some (.named "gpu-1", "10.0.0.1") } :: steps 3 1 ++
    .run 3 { fault := .before } :: steps 3 3

theorem handled_of_busyRaises :
    let p := (Sample.start.play (Sample.claimed 7)).play Sample.busyRaises
    p.world.db.status 7 = some .failed ∧ Unpinned 7 p.world.db :=
  ⟨by decide, (handled_unpinned (i := 3) (g := .L40S) (Pool.exec_play _ _ (by decide)) rfl
    (by decide) (by decide) (by decide) (by decide)).2⟩

end GrillPlatform
